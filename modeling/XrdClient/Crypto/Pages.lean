/-
  Crypto/Pages.lean --- data with a CRC-32C in front of each page.

  Source: `crypto/crc32c.py`; `PgRead.reply_cap` and `PgWrite.reply_cap` of
  `proto/_requests_io.py`.  `crc32c` itself is another package's (`xrdcore.crc32c`), and
  a parameter.

  A *slot* is what a payload has of one page: its CRC field, and the page.  Cut into
  slots, a payload says by itself what `unpack_pages` makes of it (`unpackPages_eq`), and
  data cut into pages what `pack_pages` makes of them (`packPages_flatten`).
-/
import XrdClient.Lib.Bytes
import XrdClient.Lib.Crc32
import XrdClient.Lib.Grid

set_option autoImplicit false

namespace XrdClient.Crypto

open XrdClient.Lib

/-! ## The code -/

def PAGE_SIZE : Nat := 4096

def kXR_pgPageSZ : Nat := 4096

def kXR_pgUnitSZ : Nat := kXR_pgPageSZ + 4

def PGW_CSE_HDRLEN : Nat := 8

/-- `page_span`. -/
def pageSpan (offset remaining : Nat) : Nat := min remaining (PAGE_SIZE - offset % PAGE_SIZE)

/-- How long the page at `offset` is, if there is enough of it. -/
def firstHead (offset : Nat) : Nat :=
  if offset % PAGE_SIZE ≠ 0 then PAGE_SIZE - offset % PAGE_SIZE else PAGE_SIZE

/-- `PgRead.reply_cap`. -/
def PgRead.replyCap (offset length : Nat) : Nat :=
  let pages := (offset % kXR_pgPageSZ + length + (kXR_pgPageSZ - 1)) / kXR_pgPageSZ
  length + (kXR_pgUnitSZ - kXR_pgPageSZ) * pages

/-- The pages that `PgWrite.reply_cap` allows for. -/
def PgWrite.pages (data : Bytes) : Nat := (data.length + (kXR_pgUnitSZ - 1)) / kXR_pgUnitSZ + 1

/-- `PgWrite.reply_cap`. -/
def PgWrite.replyCap (data : Bytes) : Nat := PGW_CSE_HDRLEN + 8 * PgWrite.pages data

section

variable (crc32c : Bytes → UInt32)

/-- The loop of `pack_pages`. -/
def packLoop : Nat → Nat → Bytes → Bytes
  | 0, _, _ => []
  | left + 1, head, view =>
      if view.isEmpty then []
      else
        let page := view.take head
        beBytes 4 (crc32c page).toNat ++ page ++ packLoop left PAGE_SIZE (view.drop head)

/-- `pack_pages`. -/
def packPages (data : Bytes) (offset : Nat) : Bytes := packLoop crc32c data.length (firstHead offset) data

/-- The loop of `unpack_pages`: the data, and where pages failed. -/
def unpackLoop : Nat → Nat → Nat → Bytes → Bytes × List Nat
  | 0, _, _, _ => ([], [])
  | left + 1, head, start, view =>
      if view.isEmpty then ([], [])
      else
        let want := beNat (view.take 4)
        let page := (view.drop 4).take head
        let (out, corrupt) :=
          unpackLoop left PAGE_SIZE (start + page.length) (view.drop (4 + page.length))
        (page ++ out, if (crc32c page).toNat ≠ want then start :: corrupt else corrupt)

/-- `unpack_pages`. -/
def unpackPages (data : Bytes) (offset : Nat) : Bytes × List Nat :=
  unpackLoop crc32c data.length (firstHead offset) offset data

end

/-! ## Pages and slots -/

/-- What a payload has of one page: the CRC field, and the page. -/
abbrev Slot : Type := Bytes × Bytes

/-- The payload that some slots make. -/
def wire (slots : List Slot) : Bytes := (slots.map fun slot => slot.1 ++ slot.2).flatten

def slotsFrom : Nat → Nat → Bytes → List Slot
  | 0, _, _ => []
  | left + 1, head, payload =>
      if payload.isEmpty then []
      else (payload.take 4, (payload.drop 4).take head) ::
        slotsFrom left PAGE_SIZE (payload.drop (4 + head))

/-- A payload for `offset`, cut into slots. -/
def slots (offset : Nat) (payload : Bytes) : List Slot :=
  slotsFrom payload.length (firstHead offset) payload

/-- The pages of data at `offset`. -/
def pages (offset : Nat) (data : Bytes) : List Bytes := cells PAGE_SIZE offset data

section

variable (crc32c : Bytes → UInt32)

/-- The slot of a page, as it is sent. -/
def sealed (page : Bytes) : Slot := (beBytes 4 (crc32c page).toNat, page)

/-- A page matches its CRC. -/
def Holds (slot : Slot) : Prop := (crc32c slot.2).toNat = beNat slot.1

instance (slot : Slot) : Decidable (Holds crc32c slot) :=
  inferInstanceAs (Decidable ((crc32c slot.2).toNat = beNat slot.1))

/-- Where the pages are that do not match their CRC. -/
def failing : Nat → List Slot → List Nat
  | _, [] => []
  | start, slot :: rest =>
      if Holds crc32c slot then failing (start + slot.2.length) rest
      else start :: failing (start + slot.2.length) rest

end

section

variable {crc32c : Bytes → UInt32}

theorem PAGE_SIZE_pos : 0 < PAGE_SIZE := by decide

theorem pageSpan_eq (offset remaining : Nat) : pageSpan offset remaining = cellSpan PAGE_SIZE offset remaining := rfl

theorem firstHead_eq (offset : Nat) : firstHead offset = PAGE_SIZE - offset % PAGE_SIZE := by
  unfold firstHead
  split
  · rfl
  · omega

theorem firstHead_pos (offset : Nat) : 0 < firstHead offset := by
  have := Nat.mod_lt offset PAGE_SIZE_pos
  rw [firstHead_eq]
  omega

/-- Behind a whole page, the next one may be whole. -/
theorem firstHead_next (offset : Nat) : firstHead (offset + firstHead offset) = PAGE_SIZE := by
  rw [firstHead_eq, firstHead_eq offset, mod_of_cell PAGE_SIZE_pos, Nat.sub_zero]

@[simp] theorem wire_nil : wire [] = [] := rfl

@[simp] theorem wire_cons (slot : Slot) (rest : List Slot) :
    wire (slot :: rest) = slot.1 ++ (slot.2 ++ wire rest) := by
  simp [wire]

theorem gridded_pages (offset : Nat) (data : Bytes) : Gridded PAGE_SIZE offset (pages offset data) :=
  gridded_cells PAGE_SIZE_pos offset data

@[simp] theorem flatten_pages (offset : Nat) (data : Bytes) : (pages offset data).flatten = data :=
  flatten_cells PAGE_SIZE_pos offset data

@[simp] theorem sealed_snd (ps : List Bytes) : (ps.map (sealed crc32c)).map Prod.snd = ps := by
  rw [List.map_map]
  exact List.map_id ps

theorem holds_sealed (page : Bytes) : Holds crc32c (sealed crc32c page) := by
  have hlt : (crc32c page).toNat < 256 ^ 4 := (crc32c page).toNat_lt
  exact (beNat_beBytes 4 _ hlt).symm

/-- A page that matches a whole CRC field is sealed with it. -/
theorem sealed_of_holds {slot : Slot} (h : Holds crc32c slot) (hlen : slot.1.length = 4) :
    sealed crc32c slot.2 = slot := by
  obtain ⟨field, page⟩ := slot
  have hfield : (crc32c page).toNat = beNat field := h
  rw [sealed, hfield, ← hlen, beBytes_beNat]

/-! ## What the loops do -/

/-- The pages of some data are packed one by one. -/
theorem packLoop_flatten {offset : Nat} {ps : List Bytes} (h : Gridded PAGE_SIZE offset ps) :
    ∀ left, ps.flatten.length ≤ left →
      packLoop crc32c left (firstHead offset) ps.flatten = wire (ps.map (sealed crc32c)) := by
  induction h with
  | nil =>
    intro left _
    cases left <;> rfl
  | @cons offset page rest some_ span more ih =>
    intro left hleft
    have hgrid : Gridded PAGE_SIZE offset (page :: rest) := .cons some_ span more
    have hpos := List.length_pos_iff.mpr some_
    rw [List.flatten_cons, List.length_append] at hleft
    obtain ⟨left, rfl⟩ : ∃ n, left = n + 1 := ⟨left - 1, by omega⟩
    have hne : (page ++ rest.flatten).isEmpty = false := by simp [some_]
    rw [packLoop, List.flatten_cons, hne, List.map_cons, wire_cons]
    simp only [Bool.false_eq_true, if_false]
    -- the last page may be short; behind any other the next one is whole
    by_cases hrest : rest = []
    · subst hrest
      have hle : page.length ≤ firstHead offset := firstHead_eq offset ▸ hgrid.length_le
      have hdrop : packLoop crc32c left PAGE_SIZE (page.drop (firstHead offset)) = [] := by
        rw [List.drop_eq_nil_of_le hle]
        cases left <;> rfl
      rw [List.flatten_nil, List.append_nil, hdrop, List.take_of_length_le hle]
      simp [sealed]
    · have hlen : page.length = firstHead offset := firstHead_eq offset ▸ hgrid.length_eq hrest
      have hnext : firstHead (offset + page.length) = PAGE_SIZE := by rw [hlen, firstHead_next]
      have htail := ih left (by omega)
      rw [hnext] at htail
      rw [← hlen, List.take_left', List.drop_left', htail]
      · simp [sealed]
      · rfl
      · rfl

/-- **What `pack_pages` makes of data**: a CRC in front of each page. -/
theorem packPages_eq (data : Bytes) (offset : Nat) :
    packPages crc32c data offset = wire ((pages offset data).map (sealed crc32c)) := by
  have h := @packLoop_flatten crc32c _ _ (gridded_pages offset data) data.length (by simp)
  rwa [flatten_pages] at h

theorem packPages_flatten {offset : Nat} {ps : List Bytes} (h : Gridded PAGE_SIZE offset ps) :
    packPages crc32c ps.flatten offset = wire (ps.map (sealed crc32c)) :=
  packLoop_flatten h _ (Nat.le_refl _)

theorem unpackLoop_eq : ∀ (left head start : Nat) (payload : Bytes), 0 < head →
    unpackLoop crc32c left head start payload =
      (((slotsFrom left head payload).map Prod.snd).flatten,
        failing crc32c start (slotsFrom left head payload)) := by
  intro left
  induction left with
  | zero => exact fun _ _ _ _ => rfl
  | succ left ih =>
    intro head start payload hhead
    rw [unpackLoop, slotsFrom]
    cases hempty : payload.isEmpty with
    | true => rfl
    | false =>
      simp only [Bool.false_eq_true, if_false]
      -- a page that is cut short is the last one
      have hdrop : payload.drop (4 + ((payload.drop 4).take head).length) = payload.drop (4 + head) := by
        rw [List.length_take, List.length_drop]
        by_cases hlong : head ≤ payload.length - 4
        · rw [Nat.min_eq_left hlong]
        · rw [Nat.min_eq_right (by omega), List.drop_eq_nil_of_le (by omega),
            List.drop_eq_nil_of_le (by omega)]
      rw [hdrop, ih _ _ _ PAGE_SIZE_pos]
      simp only [List.map_cons, List.flatten_cons, failing, Holds, ne_eq, ite_not]
      rfl

/-- **What `unpack_pages` makes of a payload**: the pages of its slots, and where they
fail. -/
theorem unpackPages_eq (payload : Bytes) (offset : Nat) :
    unpackPages crc32c payload offset =
      (((slots offset payload).map Prod.snd).flatten, failing crc32c offset (slots offset payload)) :=
  unpackLoop_eq _ _ _ _ (firstHead_pos offset)

/-! ## The slots of a payload -/

/-- How long the slots are is how long the payload is. -/
theorem slotsFrom_shape : ∀ (left head : Nat) (a b : Bytes), a.length = b.length →
    (slotsFrom left head a).map (fun slot => (slot.1.length, slot.2.length)) =
      (slotsFrom left head b).map (fun slot => (slot.1.length, slot.2.length)) := by
  intro left
  induction left with
  | zero => exact fun _ _ _ _ => rfl
  | succ left ih =>
    intro head a b h
    have hempty : a.isEmpty = b.isEmpty := by
      rw [← Bool.coe_iff_coe, List.isEmpty_iff_length_eq_zero, List.isEmpty_iff_length_eq_zero, h]
    rw [slotsFrom, slotsFrom, hempty]
    split
    · rfl
    · rw [List.map_cons, List.map_cons, ih PAGE_SIZE _ (b.drop (4 + head)) (by simp [h])]
      simp [h]

/-- Slots with whole CRC fields, over a grid of pages, are the slots of their payload. -/
theorem slotsFrom_wire {offset : Nat} {ss : List Slot} (h : Gridded PAGE_SIZE offset (ss.map Prod.snd))
    (hfields : ∀ slot ∈ ss, slot.1.length = 4) :
    ∀ left, (wire ss).length ≤ left → slotsFrom left (firstHead offset) (wire ss) = ss := by
  induction ss generalizing offset with
  | nil =>
    intro left _
    cases left <;> rfl
  | cons slot rest ih =>
    intro left hleft
    obtain ⟨field, page⟩ := slot
    have hfield : field.length = 4 := hfields (field, page) (by simp)
    rw [wire_cons, List.length_append, List.length_append] at hleft
    dsimp only at hleft
    obtain ⟨left, rfl⟩ : ∃ n, left = n + 1 := ⟨left - 1, by omega⟩
    have hne : (field ++ (page ++ wire rest)).isEmpty = false := by
      simp [List.ne_nil_of_length_pos (by omega : 0 < field.length)]
    rw [slotsFrom, wire_cons, hne]
    simp only [Bool.false_eq_true, if_false]
    rw [← hfield, List.take_left, List.drop_left, ← List.drop_drop, List.drop_left]
    rw [List.map_cons] at h
    by_cases hrest : rest = []
    · subst hrest
      have hle : page.length ≤ firstHead offset := firstHead_eq offset ▸ h.length_le
      rw [wire_nil, List.append_nil, List.take_of_length_le hle, List.drop_eq_nil_of_le hle]
      cases left <;> rfl
    · have hlen : page.length = firstHead offset :=
        firstHead_eq offset ▸ h.length_eq (by simpa using hrest)
      have hnext : firstHead (offset + page.length) = PAGE_SIZE := by rw [hlen, firstHead_next]
      cases h with
      | cons _ _ more =>
        have htail := ih more (fun slot hs => hfields slot (by simp [hs])) left (by omega)
        rw [hnext] at htail
        rw [← hlen, List.take_left, List.drop_left, htail]

theorem slots_wire {offset : Nat} {ss : List Slot} (h : Gridded PAGE_SIZE offset (ss.map Prod.snd))
    (hfields : ∀ slot ∈ ss, slot.1.length = 4) : slots offset (wire ss) = ss :=
  slotsFrom_wire h hfields _ (Nat.le_refl _)

/-- The slots of what was packed are the sealed pages. -/
theorem slots_packPages (crc32c : Bytes → UInt32) (data : Bytes) (offset : Nat) :
    slots offset (packPages crc32c data offset) = (pages offset data).map (sealed crc32c) := by
  rw [packPages_eq]
  refine slots_wire ?_ fun slot hs => ?_
  · rw [sealed_snd]
    exact gridded_pages offset data
  · obtain ⟨page, -, rfl⟩ := List.mem_map.mp hs
    exact length_beBytes 4 _

theorem failing_sealed (offset : Nat) (ps : List Bytes) :
    failing crc32c offset (ps.map (sealed crc32c)) = [] := by
  induction ps generalizing offset with
  | nil => rfl
  | cons page ps ih => rw [List.map_cons, failing, if_pos (holds_sealed page), ih]

theorem failing_eq_nil {offset : Nat} {ss : List Slot} :
    failing crc32c offset ss = [] ↔ ∀ slot ∈ ss, Holds crc32c slot := by
  induction ss generalizing offset with
  | nil => simp [failing]
  | cons slot ss ih =>
    rw [failing, List.forall_mem_cons]
    split
    · next h => rw [ih, and_iff_right h]
    · next h => simp [h]

/-- What is reported are starts of pages. -/
theorem mem_failing {start p : Nat} {ss : List Slot} (h : p ∈ failing crc32c start ss) :
    ∃ before slot after, ss = before ++ slot :: after ∧
      p = start + ((before.map Prod.snd).flatten).length := by
  induction ss generalizing start with
  | nil => exact absurd h List.not_mem_nil
  | cons slot ss ih =>
    have hmore : p ∈ failing crc32c (start + slot.2.length) ss → ∃ before slot' after,
        slot :: ss = before ++ slot' :: after ∧ p = start + ((before.map Prod.snd).flatten).length := by
      intro h
      obtain ⟨before, slot', after, rfl, rfl⟩ := ih h
      exact ⟨slot :: before, slot', after, rfl, by simp [Nat.add_assoc]⟩
    rw [failing] at h
    split at h
    · exact hmore h
    · rcases List.mem_cons.mp h with rfl | h
      · exact ⟨[], slot, ss, rfl, rfl⟩
      · exact hmore h

/-- In the order of the file. -/
theorem failing_sorted {start : Nat} {ss : List Slot} (h : ∀ slot ∈ ss, slot.2 ≠ []) :
    (failing crc32c start ss).Pairwise (· < ·) ∧ ∀ p ∈ failing crc32c start ss, start ≤ p := by
  induction ss generalizing start with
  | nil => exact ⟨.nil, fun p hp => absurd hp List.not_mem_nil⟩
  | cons slot ss ih =>
    obtain ⟨hslot, hss⟩ := List.forall_mem_cons.mp h
    have hpos := List.length_pos_iff.mpr hslot
    obtain ⟨hsorted, hfrom⟩ := ih hss
    rw [failing]
    split
    · exact ⟨hsorted, fun p hp => by have := hfrom p hp; omega⟩
    · refine ⟨List.pairwise_cons.mpr ⟨fun p hp => by have := hfrom p hp; omega, hsorted⟩, ?_⟩
      refine List.forall_mem_cons.mpr ⟨Nat.le_refl _, fun p hp => ?_⟩
      have := hfrom p hp
      omega

/-- The page at a place of some data is what the data have there, as far as its cell
reaches. -/
theorem slice_page {offset : Nat} {data page : Bytes} {before after : List Bytes}
    (h : pages offset data = before ++ page :: after) :
    (data.drop before.flatten.length).take
        (pageSpan (offset + before.flatten.length) (data.length - before.flatten.length)) = page := by
  have hspan := ((h ▸ gridded_pages offset data).piece_at PAGE_SIZE_pos).1
  have hdata : data = before.flatten ++ (page ++ after.flatten) := by
    rw [← flatten_pages offset data, h, List.flatten_append, List.flatten_cons]
  have hrest : data.length - before.flatten.length = (page ++ after.flatten).length := by
    rw [hdata, List.length_append]
    omega
  rw [hrest, pageSpan_eq, ← hspan, hdata, List.drop_left, List.take_left]

/-- A page has no other page in it. -/
theorem pages_page {offset : Nat} {data page : Bytes} {before after : List Bytes}
    (h : pages offset data = before ++ page :: after) :
    pages (offset + before.flatten.length) page = [page] := by
  have hgrid := gridded_pages offset data
  rw [h] at hgrid
  refine (gridded_pages _ page).unique ?_ (by simp)
  refine .cons (hgrid.ne_nil page (by simp)) ?_ .nil
  have hle := hgrid.drop.length_le
  rw [List.flatten_nil, List.append_nil, cellSpan]
  omega

/-! ## There and back -/

/-- As many pages as the range touches, if it is not empty. -/
theorem length_pages {data : Bytes} (offset : Nat) (h : data ≠ []) :
    (pages offset data).length = (offset % PAGE_SIZE + data.length + (PAGE_SIZE - 1)) / PAGE_SIZE := by
  have hsome : pages offset data ≠ [] := by
    intro hnil
    exact h (by rw [← flatten_pages offset data, hnil]; rfl)
  have hlen := (gridded_pages offset data).length_pieces PAGE_SIZE_pos hsome
  rwa [flatten_pages] at hlen

theorem length_wire_sealed (ps : List Bytes) :
    (wire (ps.map (sealed crc32c))).length = ps.flatten.length + 4 * ps.length := by
  induction ps with
  | nil => rfl
  | cons page ps ih =>
    rw [List.map_cons, wire_cons, List.length_append, List.length_append, ih, List.flatten_cons,
      List.length_append, List.length_cons, sealed, length_beBytes]
    dsimp only
    omega

theorem length_packPages (data : Bytes) (offset : Nat) :
    (packPages crc32c data offset).length = data.length + 4 * (pages offset data).length := by
  rw [packPages_eq, length_wire_sealed, flatten_pages]

/-- `PgWrite` allows for every page that is sent. -/
theorem length_pages_le (data : Bytes) (offset : Nat) :
    (pages offset data).length ≤ PgWrite.pages (packPages crc32c data offset) := by
  by_cases h : data = []
  · subst h
    exact Nat.zero_le _
  · have hpages := length_pages offset h
    have hmod := Nat.mod_lt offset PAGE_SIZE_pos
    rw [PgWrite.pages, length_packPages]
    simp only [PAGE_SIZE, kXR_pgUnitSZ, kXR_pgPageSZ] at hpages hmod ⊢
    omega

/-- All that packing `data` at `offset` is held to. -/
structure RoundTrip (crc32c : Bytes → UInt32) (data : Bytes) (offset : Nat) : Prop where
  back : unpackPages crc32c (packPages crc32c data offset) offset = (data, [])
  readCap : (packPages crc32c data offset).length = PgRead.replyCap offset data.length
  writeCap : (pages offset data).length ≤ PgWrite.pages (packPages crc32c data offset)
  /-- In front of each page its CRC. -/
  layout : packPages crc32c data offset = wire ((pages offset data).map (sealed crc32c))
  boundaries : ∀ before page after, pages offset data = before ++ page :: after →
    page.length = pageSpan (offset + before.flatten.length) (page ++ after.flatten).length ∧
      (before ≠ [] → (offset + before.flatten.length) % PAGE_SIZE = 0)
  /-- Whatever bytes arrive instead, the slots are where they were; those that fail are
  reported, and a slot that is as it was brings its page. -/
  flips : ∀ payload : Bytes, payload.length = (packPages crc32c data offset).length →
    (slots offset payload).map (fun slot => (slot.1.length, slot.2.length)) =
        (pages offset data).map (fun page => (4, page.length)) ∧
      unpackPages crc32c payload offset =
        (((slots offset payload).map Prod.snd).flatten,
          failing crc32c offset (slots offset payload)) ∧
      ∀ i : Nat, (slots offset payload)[i]? = (slots offset (packPages crc32c data offset))[i]? →
        ((slots offset payload)[i]?).map Prod.snd = (pages offset data)[i]?

theorem readCap_iff (crc32c : Bytes → UInt32) (data : Bytes) (offset : Nat) :
    (packPages crc32c data offset).length = PgRead.replyCap offset data.length ↔
      data ≠ [] ∨ offset % PAGE_SIZE = 0 := by
  have hmod := Nat.mod_lt offset PAGE_SIZE_pos
  rw [length_packPages, PgRead.replyCap]
  by_cases h : data = []
  · subst h
    have hnone : (pages offset ([] : Bytes)).length = 0 := rfl
    rw [hnone]
    simp only [List.length_nil, PAGE_SIZE, kXR_pgUnitSZ, kXR_pgPageSZ, ne_eq, not_true_eq_false,
      false_or] at hmod ⊢
    omega
  · rw [length_pages offset h]
    simp only [PAGE_SIZE, kXR_pgUnitSZ, kXR_pgPageSZ, ne_eq, h, not_false_eq_true, true_or]

/-- **Packing comes back, but for the cap of an empty read inside a page.**  For every data
and every offset: what was packed is unpacked without a corrupt page, pages lie where
`page_span` has them, there are no more than `PgWrite` allows for, and whatever bytes come
in their place are reported page by page; and a `PgRead` of the range is capped at what
comes, unless the range is empty and starts inside a page. -/
theorem roundTrip_iff (crc32c : Bytes → UInt32) (data : Bytes) (offset : Nat) :
    RoundTrip crc32c data offset ↔ data ≠ [] ∨ offset % PAGE_SIZE = 0 := by
  refine ⟨fun h => (readCap_iff crc32c data offset).mp h.readCap, fun h => ?_⟩
  have hslots := slots_packPages crc32c data offset
  refine ⟨?_, (readCap_iff crc32c data offset).mpr h, length_pages_le data offset,
    packPages_eq data offset, fun before page after heq => ?_, fun payload hlen => ⟨?_, ?_, fun i hi => ?_⟩⟩
  · rw [unpackPages_eq, hslots, sealed_snd, flatten_pages, failing_sealed]
  · exact (heq ▸ gridded_pages offset data).piece_at PAGE_SIZE_pos
  · have hshape := slotsFrom_shape payload.length (firstHead offset) payload
      (packPages crc32c data offset) hlen
    rw [slots] at hslots
    rw [hlen, hslots, List.map_map, ← hlen] at hshape
    rw [slots, hshape]
    refine List.map_congr_left fun page _ => ?_
    simp [sealed]
  · exact unpackPages_eq payload offset
  · rw [hi, hslots, ← List.getElem?_map, sealed_snd]

/-- No byte comes for an empty range, and four are allowed for. -/
theorem empty_read_overcounted : ¬ ∀ (data : Bytes) (offset : Nat), RoundTrip Lib.crc32c data offset :=
  fun h => absurd (h [] 1).readCap (by decide)

/-! ## What is accepted -/

/-- A payload is whole slots, and at most one CRC field, or a piece of one, behind them. -/
theorem slotsFrom_split : ∀ (left offset : Nat) (payload : Bytes), payload.length ≤ left →
    ∃ whole stray, slotsFrom left (firstHead offset) payload = whole ++ stray ∧
      Gridded PAGE_SIZE offset (whole.map Prod.snd) ∧ (∀ slot ∈ whole, slot.1.length = 4) ∧
      (stray = [] ∨ ∃ field, stray = [(field, [])] ∧ field ≠ []) ∧
      wire whole ++ wire stray = payload := by
  intro left
  induction left with
  | zero =>
    intro offset payload h
    obtain rfl : payload = [] := List.eq_nil_of_length_eq_zero (Nat.le_zero.mp h)
    exact ⟨[], [], rfl, .nil, by simp, .inl rfl, rfl⟩
  | succ left ih =>
    intro offset payload h
    have hend : ∀ head, slotsFrom left head [] = [] := fun head => by cases left <;> rfl
    rw [slotsFrom]
    cases hempty : payload.isEmpty with
    | true =>
      obtain rfl := List.isEmpty_iff.mp hempty
      exact ⟨[], [], rfl, .nil, by simp, .inl rfl, rfl⟩
    | false =>
      have hne : payload ≠ [] := fun e => by simp [e] at hempty
      have hhead := firstHead_pos offset
      simp only [Bool.false_eq_true, if_false]
      by_cases hshort : payload.length ≤ 4
      · refine ⟨[], [(payload, [])], ?_, .nil, by simp, .inr ⟨payload, rfl, hne⟩, by simp⟩
        rw [List.take_of_length_le hshort, List.drop_eq_nil_of_le hshort,
          List.drop_eq_nil_of_le (by omega), hend, List.take_nil, List.nil_append]
      have hfield : (payload.take 4).length = 4 := List.length_take_of_le (by omega)
      have hpage : ((payload.drop 4).take (firstHead offset)).length =
          min (firstHead offset) (payload.length - 4) := by
        rw [List.length_take, List.length_drop]
      have hsome : (payload.drop 4).take (firstHead offset) ≠ [] :=
        List.ne_nil_of_length_pos (by rw [hpage]; omega)
      have hback : payload.take 4 ++ ((payload.drop 4).take (firstHead offset) ++
          payload.drop (4 + firstHead offset)) = payload := by
        rw [← List.drop_drop, List.take_append_drop, List.take_append_drop]
      by_cases hlast : payload.length ≤ 4 + firstHead offset
      · -- what is left is the last page
        rw [List.drop_eq_nil_of_le hlast] at hback ⊢
        rw [hend]
        refine ⟨[_], [], (List.append_nil _).symm, .cons hsome ?_ .nil, by simpa using hfield, .inl rfl, ?_⟩
        · rw [List.map_nil, List.flatten_nil, List.append_nil, cellSpan, ← firstHead_eq]
          dsimp only
          rw [hpage]
          omega
        · simpa using hback
      · have hfull : ((payload.drop 4).take (firstHead offset)).length = firstHead offset := by
          rw [hpage]
          omega
        obtain ⟨whole, stray, heq, hgrid, hfields, hstray, hwire⟩ := ih (offset + firstHead offset)
          (payload.drop (4 + firstHead offset)) (by rw [List.length_drop]; omega)
        rw [firstHead_next] at heq
        rw [heq]
        refine ⟨_ :: whole, stray, rfl, .cons hsome ?_ (hfull.symm ▸ hgrid), ?_, hstray, ?_⟩
        · rw [List.length_append, cellSpan, ← firstHead_eq, hfull]
          omega
        · exact List.forall_mem_cons.mpr ⟨hfield, hfields⟩
        · rw [wire_cons, List.append_assoc, List.append_assoc, hwire]
          exact hback

/-- Whole slots that hold are what was packed. -/
theorem packPages_whole {offset : Nat} {whole : List Slot}
    (hgrid : Gridded PAGE_SIZE offset (whole.map Prod.snd)) (hfields : ∀ slot ∈ whole, slot.1.length = 4)
    (hholds : ∀ slot ∈ whole, Holds crc32c slot) :
    packPages crc32c (whole.map Prod.snd).flatten offset = wire whole := by
  rw [packPages_flatten hgrid, List.map_map]
  congr 1
  refine (List.map_congr_left fun slot hs => ?_).trans (List.map_id whole)
  exact sealed_of_holds (hholds slot hs) (hfields slot hs)

/-- **A clean read is an encoding, unless a CRC field has no page behind it.**  For every
payload and every offset: data that `unpack_pages` returns without a corrupt page packs to
the payload exactly when some page fails its CRC, so that none is returned so, or no CRC
field, whole or cut short, is left over behind the pages. -/
theorem unpackPages_accepts_iff (crc32c : Bytes → UInt32) (payload : Bytes) (offset : Nat) :
    ((unpackPages crc32c payload offset).2 = [] →
        packPages crc32c (unpackPages crc32c payload offset).1 offset = payload) ↔
      (∃ slot ∈ slots offset payload, ¬ Holds crc32c slot) ∨
        ∀ slot ∈ slots offset payload, slot.2 ≠ [] := by
  obtain ⟨whole, stray, heq, hgrid, hfields, hstray, hwire⟩ :=
    slotsFrom_split payload.length offset payload (Nat.le_refl _)
  have hslots : slots offset payload = whole ++ stray := heq
  rw [unpackPages_eq, failing_eq_nil, hslots]
  by_cases hall : ∀ slot ∈ whole ++ stray, Holds crc32c slot
  · have hpacked := packPages_whole hgrid hfields fun slot hs => hall slot (List.mem_append_left _ hs)
    have hnone : ¬ ∃ slot ∈ whole ++ stray, ¬ Holds crc32c slot :=
      fun ⟨slot, hs, hnot⟩ => hnot (hall slot hs)
    rw [or_iff_right hnone]
    rcases hstray with rfl | ⟨field, rfl, hfield⟩
    · refine ⟨fun _ slot hs => ?_, fun _ _ => ?_⟩
      · rw [List.append_nil] at hs
        exact hgrid.ne_nil _ (List.mem_map_of_mem hs)
      · rw [List.append_nil, hpacked, ← hwire, wire_nil, List.append_nil]
    · refine ⟨fun h => ?_, fun h => absurd rfl (h (field, []) (by simp))⟩
      have hsame := h hall
      have hdata : ((whole ++ [(field, ([] : Bytes))]).map Prod.snd).flatten =
          (whole.map Prod.snd).flatten := by simp
      rw [hdata, hpacked, ← hwire] at hsame
      simp [hfield] at hsame
  · obtain ⟨slot, hs, hnot⟩ : ∃ slot ∈ whole ++ stray, ¬ Holds crc32c slot := by
      simpa using hall
    exact ⟨fun _ => .inl ⟨slot, hs, hnot⟩, fun _ h => absurd h hall⟩

/-- Four zero bytes, the CRC-32C of nothing, are read as nothing. -/
theorem bare_crc_accepted : ¬ ∀ (payload : Bytes) (offset : Nat),
    (unpackPages Lib.crc32c payload offset).2 = [] →
      packPages Lib.crc32c (unpackPages Lib.crc32c payload offset).1 offset = payload :=
  fun h => absurd (h [0, 0, 0, 0] 0 (by decide)) (by decide)

end

end XrdClient.Crypto
