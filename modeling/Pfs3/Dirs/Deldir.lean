import Mathlib.Data.List.DropRight
import Mathlib.Data.List.ReduceOption
import Pfs3.Dirs.Rename
import Pfs3.Store.VolumeName

/-!
# Deletion into the deldir

A deldir block is a list of slots, free where the anode is 0. What a deletion takes out of a
directory it puts into a free slot, so that `list_deldir` lists it after the commit; the other slots
stay.
-/

namespace Pfs3

open ByteList Stop

namespace Deldir

variable {data : Bytes} {n i j : ℕ} {e : DirEntry}

/-- Where slot `i` begins. -/
def slotAt (i : ℕ) : ℕ := DELDIR_HEADER_SIZE + i * DELDIR_ENTRY_SIZE

/-- The entry in slot `i`, if the block has the slot and it is used. -/
def slot (data : Bytes) (i : ℕ) : Option DelDirEntry :=
  if slotAt i + DELDIR_ENTRY_SIZE ≤ data.length then
    DelDirEntry.parse ((data.drop (slotAt i)).take DELDIR_ENTRY_SIZE)
  else none

/-- The slots of a block. -/
def slots (n : ℕ) (data : Bytes) : List (Option DelDirEntry) := (List.range n).map (slot data)

theorem deldirBlockEntries_eq (hid : be16 data 0 = DELDIRID) (n : ℕ) :
    Volume.deldirBlockEntries data n = (slots n data).reduceOption := by
  rw [slots, List.reduceOption, List.filterMap_map]
  exact if_neg (not_not.2 hid)

theorem slotAt_eq (i : ℕ) : slotAt i = 32 + i * 32 := rfl

theorem slot_eq_none (hfit : slotAt i + 32 ≤ data.length) :
    slot data i = none ↔ be32 data (slotAt i) = 0 := by
  have hlen : ((data.drop (slotAt i)).take 32).length = 32 := by
    rw [List.length_take, List.length_drop]
    omega
  have hanode : be32 ((data.drop (slotAt i)).take 32) 0 = be32 data (slotAt i) :=
    be32_eq_of_take (by rw [List.drop_zero, List.take_take]; rfl)
  have hE : DELDIR_ENTRY_SIZE = 32 := rfl
  rw [slot, hE, if_pos hfit, DelDirEntry.parse, if_neg (by omega), hanode]
  split <;> simp_all

/-! ## The record of an entry -/

/-- The bytes of a slot. -/
def record (e : DirEntry) : Bytes :=
  enc32 e.anode ++ enc32 e.fileSize ++ enc16 e.creationDay ++ enc16 e.creationMinute ++
    enc16 e.creationTick ++ ((asBytes e.name).take 16 ++
      List.replicate (16 - ((asBytes e.name).take 16).length) 0) ++ enc16 (e.fileSize / U32)

theorem length_name (e : DirEntry) : ((asBytes e.name).take 16 ++
    List.replicate (16 - ((asBytes e.name).take 16).length) (0 : UInt8)).length = 16 := by
  rw [List.length_append, List.length_replicate, List.length_take]
  omega

theorem length_record (e : DirEntry) : (record e).length = 32 := by
  simp only [record, List.length_append, length_enc32, length_enc16, List.length_take,
    List.length_replicate]
  omega

theorem writeDeldirEntry_eq {off : ℕ} (h : off + 32 ≤ data.length) :
    Writer.writeDeldirEntry data off e = .ok (splice data off (record e)) := by
  have hstep : ∀ (a b : Bytes) (o : ℕ), o = off + a.length →
      off + a.length + b.length ≤ data.length →
      putBytes (splice data off a) o b = .ok (splice data off (a ++ b)) := by
    rintro a b o rfl hfit
    rw [putBytes_ok (by rw [length_splice (by omega)]; omega), splice_splice hfit]
  unfold Writer.writeDeldirEntry
  rw [putU32_ok (by omega), ok_bind, putU32, hstep _ _ _ (by simp) (by simp; omega), ok_bind,
    putU16, hstep _ _ _ (by simp) (by simp; omega), ok_bind,
    putU16, hstep _ _ _ (by simp) (by simp; omega), ok_bind,
    putU16, hstep _ _ _ (by simp) (by simp; omega), ok_bind]
  dsimp only
  rw [hstep _ _ _ (by simp) (by rw [length_name]; simp; omega), ok_bind,
    putU16, hstep _ _ _ (by rw [List.length_append, length_name]; simp)
      (by rw [List.length_append, length_name]; simp; omega)]
  rfl

/-- What a slot can hold: the anode is not 0, which would leave the slot free. -/
structure Fits (e : DirEntry) : Prop where
  pos : 0 < e.anode
  anode : e.anode < 2 ^ 32
  size : e.fileSize < 2 ^ 48
  day : e.creationDay < 2 ^ 16
  minute : e.creationMinute < 2 ^ 16
  tick : e.creationTick < 2 ^ 16

/-- What is listed of an entry: the name as far as 16 bytes hold it. -/
def buried (e : DirEntry) : DelDirEntry where
  anode := e.anode
  fsize := e.fileSize % 2 ^ 32
  fsizex := e.fileSize / 2 ^ 32
  creationDay := e.creationDay
  creationMinute := e.creationMinute
  creationTick := e.creationTick
  filename := (latin1ToString ((asBytes e.name).take 16)).rdropWhile (· = '\x00')

/-- The size is kept as a whole. -/
theorem fileSize_buried (h : Fits e) : (buried e).fileSize = e.fileSize := by
  have hhigh : e.fileSize / 2 ^ 32 % 65536 = e.fileSize / 2 ^ 32 := by
    have hsize := h.size
    omega
  have hboth := halves_or h.size
  rwa [hhigh] at hboth

/-- A name of at most 16 ASCII characters is kept, if it does not end in a zero. -/
theorem filename_buried (hascii : ∀ c ∈ e.name, c.toNat < 128) (hlen : e.name.length ≤ 16)
    (hlast : ∀ c ∈ e.name.getLast?, c ≠ '\x00') : (buried e).filename = e.name := by
  obtain ⟨hback, hbytes⟩ := latin1ToString_asBytes hascii
  rw [buried, List.take_of_length_le (hbytes.trans_le hlen), hback, List.rdropWhile_eq_self_iff]
  intro hne
  simpa using hlast _ (List.getLast?_eq_getLast_of_ne_nil hne)

theorem rdropWhile_zeros (l : Name) (n : ℕ) :
    (l ++ List.replicate n '\x00').rdropWhile (· = '\x00') = l.rdropWhile (· = '\x00') := by
  induction n with
  | zero => rw [List.replicate_zero, List.append_nil]
  | succ n ih =>
      rw [List.replicate_succ', ← List.append_assoc, List.rdropWhile_concat_pos _ _ _ (by decide),
        ih]

theorem field32 {d a c : Bytes} {v o : ℕ} (h : d = a ++ (enc32 v ++ c)) (ho : a.length = o) :
    be32 d o = v % 2 ^ 32 := by
  subst h ho
  exact (be32_append a _ 0).trans (be32_enc32 v c)

theorem field16 {d a c : Bytes} {v o : ℕ} (h : d = a ++ (enc16 v ++ c)) (ho : a.length = o) :
    be16 d o = v % 2 ^ 16 := by
  subst h ho
  exact (be16_append a _ 0).trans (be16_enc16 v c)

/-- The record of an entry, read back. -/
theorem parse_record (h : Fits e) : DelDirEntry.parse (record e) = some (buried e) := by
  obtain ⟨hpos, hanode, hsize, hday, hminute, htick⟩ := h
  have hlen := length_record e
  have hname : ((record e).drop 14).take 16 = (asBytes e.name).take 16 ++
      List.replicate (16 - ((asBytes e.name).take 16).length) (0 : UInt8) := by
    rw [record, List.append_assoc, List.drop_left' (by simp), List.take_left' (length_name e)]
  have hzeros : latin1ToString (((record e).drop 14).take 16) =
      latin1ToString ((asBytes e.name).take 16) ++
        List.replicate (16 - ((asBytes e.name).take 16).length) '\x00' := by
    rw [hname, latin1ToString, List.map_append, List.map_replicate]
    rfl
  have h0 : be32 (record e) 0 = e.anode :=
    (@field32 _ [] _ _ _ (by simp only [record, List.append_assoc, List.nil_append]; rfl)
      rfl).trans (Nat.mod_eq_of_lt hanode)
  have h4 : be32 (record e) 4 = e.fileSize % 2 ^ 32 :=
    @field32 _ (enc32 e.anode) _ _ _ (by simp only [record, List.append_assoc]; rfl) rfl
  have h8 : be16 (record e) 8 = e.creationDay :=
    (@field16 _ (enc32 e.anode ++ enc32 e.fileSize) _ _ _
      (by simp only [record, List.append_assoc]; rfl) rfl).trans (Nat.mod_eq_of_lt hday)
  have h10 : be16 (record e) 10 = e.creationMinute :=
    (@field16 _ (enc32 e.anode ++ enc32 e.fileSize ++ enc16 e.creationDay) _ _ _
      (by simp only [record, List.append_assoc]; rfl) rfl).trans (Nat.mod_eq_of_lt hminute)
  have h12 : be16 (record e) 12 = e.creationTick :=
    (@field16 _ (enc32 e.anode ++ enc32 e.fileSize ++ enc16 e.creationDay ++
      enc16 e.creationMinute) _ _ _ (by simp only [record, List.append_assoc]; rfl)
      rfl).trans (Nat.mod_eq_of_lt htick)
  have h30 : be16 (record e) 30 = e.fileSize / 2 ^ 32 := by
    have hU : U32 = 2 ^ 32 := rfl
    have hread : be16 (record e) 30 = e.fileSize / U32 % 2 ^ 16 :=
      @field16 _ _ [] _ _ (by rw [record, List.append_nil])
        (by rw [List.length_append, length_name]; rfl)
    rw [hU] at hread
    omega
  rw [DelDirEntry.parse, if_neg (by omega), h0, if_neg (by omega), h4, h8, h10, h12, h30, hzeros,
    rdropWhile_zeros]
  rfl

/-! ## The slots of a block -/

theorem freeDeldirSlot_cases (hfit : slotAt (i + n) ≤ data.length) :
    match Writer.freeDeldirSlot data n i with
    | some off => ∃ j, i ≤ j ∧ j < i + n ∧ off = slotAt j ∧ slot data j = none
    | none => ∀ j, i ≤ j → j < i + n → slot data j ≠ none := by
  induction n generalizing i with
  | zero => exact fun j hle hlt => absurd hlt (by omega)
  | succ n ih =>
      have hi : slotAt i + 32 ≤ data.length := by
        rw [slotAt_eq] at hfit ⊢
        omega
      have hstep : Writer.freeDeldirSlot data (n + 1) i = if be32 data (slotAt i) = 0 then
          some (slotAt i) else Writer.freeDeldirSlot data n (i + 1) := if_neg (Nat.not_lt.mpr hi)
      rw [hstep]
      by_cases hzero : be32 data (slotAt i) = 0
      · rw [if_pos hzero]
        exact ⟨i, le_rfl, by omega, rfl, (slot_eq_none hi).mpr hzero⟩
      · rw [if_neg hzero]
        have hrest := @ih (i + 1) (by rwa [Nat.add_right_comm])
        split at hrest
        · obtain ⟨j, hle, hlt, hoff, hfree⟩ := hrest
          exact ⟨j, by omega, by omega, hoff, hfree⟩
        · intro j hle hlt
          by_cases hij : i = j
          · exact hij ▸ fun hcon => hzero ((slot_eq_none hi).mp hcon)
          · exact hrest j (by omega) (by omega)

/-- A record in a slot: it is what the slot holds, and the other slots stay. -/
theorem slots_splice (h : Fits e) (hfit : slotAt n ≤ data.length) (hi : i < n)
    (hfree : slot data i = none) : ∃ before after, slots n data = before ++ none :: after ∧
      slots n (splice data (slotAt i) (record e)) = before ++ some (buried e) :: after := by
  have hlen := length_record e
  have hin : slotAt i + (record e).length ≤ data.length := by
    rw [slotAt_eq] at hfit ⊢
    omega
  have hslot : ∀ j, slot (splice data (slotAt i) (record e)) j =
      if j = i then some (buried e) else slot data j := fun j => by
    have hE : DELDIR_ENTRY_SIZE = 32 := rfl
    unfold slot
    rw [length_splice hin, hE]
    by_cases hji : j = i
    · subst hji
      rw [if_pos rfl, if_pos (by omega)]
      have hself := take_drop_splice_self hin
      rw [hlen] at hself
      rw [hself]
      exact parse_record h
    · rw [if_neg hji, take_drop_splice hin (by rw [slotAt_eq, slotAt_eq]; omega)]
  have hset : slots n (splice data (slotAt i) (record e)) =
      (slots n data).set i (some (buried e)) := by
    refine List.ext_getElem (by simp [slots]) fun j hj _ => ?_
    rw [List.getElem_set]
    simp only [slots, List.getElem_map, List.getElem_range, hslot, eq_comm (a := j)]
  have hin' : i < (slots n data).length := by simpa [slots] using hi
  have hget : (slots n data)[i] = none := by simpa [slots] using hfree
  refine ⟨(slots n data).take i, (slots n data).drop (i + 1), ?_, ?_⟩
  · rw [← hget, List.getElem_cons_drop, List.take_append_drop]
  · rw [hset, List.set_eq_take_append_cons_drop, if_pos hin']

end Deldir

/-! ## A deldir in the middle of a call -/

namespace Writer

open Deldir

/-- The slots of one block. -/
def blockSlots (view : ℕ → Except Fault Bytes) (n b : ℕ) : List (Option DelDirEntry) :=
  match view b with
  | .ok data => Deldir.slots n data
  | .error _ => []

def slotsPerBlock (w : Writer) : ℕ := deldirEntriesPerBlock w.vol.rootblock.reservedBlksize

/-- The slots of the deldir, in the order in which they are listed. -/
def deldirSlots (w : Writer) (view : ℕ → Except Fault Bytes) : List (Option DelDirEntry) :=
  (deldirblocks w).flatMap (blockSlots view w.slotsPerBlock)

/-- The deldir in these blocks: it is enabled, and its blocks are distinct reserved blocks, neither
free nor part of the index, all of them marked as blocks of a deldir. -/
structure HasDeldir (w : Writer) (view : ℕ → Except Fault Bytes) (free : ℕ → Bool) : Prop where
  flag : w.vol.rootblock.hasFlag MODE_DELDIR = true
  nodup : (deldirblocks w).Nodup
  reserved : ∀ b ∈ deldirblocks w, w.Reserved b
  outside : ∀ b ∈ deldirblocks w, w.Outside view free b
  id : ∀ b ∈ deldirblocks w, ∃ data, view b = .ok data ∧ be16 data 0 = DELDIRID

/-- The block `b` gets the entry in a slot that was free. -/
structure Filled (n : ℕ) (e : DirEntry) (view : ℕ → Except Fault Bytes) (b : ℕ) (data : Bytes) :
    Prop where
  id : be16 data 0 = DELDIRID
  slots : ∃ before after, blockSlots view n b = before ++ none :: after ∧
    Deldir.slots n data = before ++ some (buried e) :: after

section Steps

variable {w w₁ w₂ : Writer} {view : ℕ → Except Fault Bytes} {free : ℕ → Bool} {e : DirEntry}
  {n b parent : ℕ} {data : Bytes} {blks : List ℕ} {blocks : List (List Bytes)}

theorem Ahead.fillDeldirSlot (hw : w.Stable) (h : Ahead w w₁ view free) (he : Fits e)
    (hn : slotAt n ≤ w.resblocksize) (blks : List ℕ) :
    (∀ b ∈ blks, w.Reserved b) → (∀ b ∈ blks, ∃ data, view b = .ok data ∧ be16 data 0 = DELDIRID) →
    none ∈ blks.flatMap (blockSlots view n) → ∀ {r : Bool},
    Writer.fillDeldirSlot e n blks w₁ = .ok r w₂ → r = true ∧ ∃ b ∈ blks, ∃ data,
      Filled n e view b data ∧ Ahead w w₂ (Function.update view b (.ok data)) free := by
  induction blks with
  | nil => exact fun _ _ hfree => absurd hfree List.not_mem_nil
  | cons b rest ih =>
      intro hres hid hfree r hrun
      obtain ⟨data, hdata, hmark⟩ := hid b List.mem_cons_self
      have hlen := h.length hdata hw.sectors.le
      have htry : tryOk (Writer.readReservedRaw b) w₁ = .ok (some data) w₁ := by
        unfold tryOk
        rw [readReservedRaw_eq, h.blocks, hdata]
      rw [Writer.fillDeldirSlot, bind_of_ok htry] at hrun
      dsimp only at hrun
      obtain ⟨id, w₃, hread, hrun₁⟩ := of_bind_eq_ok hrun
      obtain ⟨hread, hstay⟩ := Format.of_lift_ok hread
      rw [hstay] at hrun₁
      have hid' : id = DELDIRID := by
        unfold readU16 at hread
        split at hread
        · rw [← Except.ok.inj hread, hmark]
        · cases hread
      rw [if_neg (not_not.mpr hid')] at hrun₁
      have hslot := @freeDeldirSlot_cases data n 0 (by rw [Nat.zero_add, hlen]; exact hn)
      cases hcase : freeDeldirSlot data n 0 with
      | none =>
          rw [hcase] at hrun₁ hslot
          have hrest : none ∈ rest.flatMap (blockSlots view n) := by
            rw [List.flatMap_cons, List.mem_append] at hfree
            refine hfree.resolve_left fun hcon => ?_
            rw [blockSlots, hdata] at hcon
            obtain ⟨j, hj, hnone⟩ := List.mem_map.mp hcon
            exact hslot j (Nat.zero_le j) (by rw [Nat.zero_add]; exact List.mem_range.mp hj) hnone
          obtain ⟨hr, b', hb', hfilled⟩ := ih (fun x hx => hres x (List.mem_cons_of_mem _ hx))
            (fun x hx => hid x (List.mem_cons_of_mem _ hx)) hrest hrun₁
          exact ⟨hr, b', List.mem_cons_of_mem _ hb', hfilled⟩
      | some off =>
          rw [hcase] at hrun₁ hslot
          obtain ⟨j, -, hj, rfl, hnone⟩ := hslot
          rw [Nat.zero_add] at hj
          have hrecord := length_record e
          have hfit : slotAt j + 32 ≤ data.length := by
            rw [slotAt_eq] at hn ⊢
            omega
          dsimp only at hrun₁
          obtain ⟨blockData, w₄, hput, hrun₂⟩ := of_bind_eq_ok hrun₁
          obtain ⟨hput, hstay⟩ := Format.of_lift_ok hput
          rw [hstay] at hrun₂
          rw [writeDeldirEntry_eq hfit] at hput
          cases hput
          obtain ⟨_, w₅, hwrite, hrun₃⟩ := of_bind_eq_ok hrun₂
          cases hrun₃
          have hin : slotAt j + (record e).length ≤ data.length := by omega
          refine ⟨rfl, b, List.mem_cons_self, _, ⟨?_, ?_⟩,
            h.writeReserved (hres b List.mem_cons_self).1 ((length_splice hin).trans hlen) hwrite⟩
          · rw [be16_splice_ne hin (by rw [slotAt_eq]; omega), hmark]
          · rw [blockSlots, hdata]
            exact slots_splice he (hlen ▸ hn) hj hnone

theorem Consistent.reservedBlksize_eq (hw : w.Consistent) :
    w.vol.rootblock.reservedBlksize = w.resblocksize := by
  rw [← hw.stable.anodesRbs, hw.indexed.anodes]
  rfl

theorem Consistent.slotsPerBlock_pos (hw : w.Consistent) :
    0 < w.slotsPerBlock ∧ slotAt w.slotsPerBlock ≤ w.resblocksize := by
  have hrbs := hw.reservedBlksize_eq
  have hsize := hw.size
  have hpos := hw.stable.sectors.pos
  have hmul := Nat.div_mul_le_self (w.resblocksize - 32) 32
  have hper : w.slotsPerBlock = (w.resblocksize - 32) / 32 := by
    rw [slotsPerBlock, hrbs]
    rfl
  rw [slotAt_eq, hper]
  omega

theorem Ahead.moveToDeldir (hw : w.Consistent) (h : Ahead w w₁ view free)
    (ht : w.HasDeldir view free) (he : Fits e) (hfree : none ∈ w.deldirSlots view) {r : Bool}
    (hrun : Writer.moveToDeldir e w₁ = .ok r w₂) : r = true ∧ ∃ b ∈ deldirblocks w, ∃ data,
      Filled w.slotsPerBlock e view b data ∧
      Ahead w w₂ (Function.update view b (.ok data)) free := by
  obtain ⟨m, hrb⟩ := h.rootblock
  have hflag : w₁.vol.rootblock.hasFlag MODE_DELDIR = true := by
    rw [hrb]
    exact ht.flag
  have hblocks : deldirblocks w₁ = deldirblocks w := by
    unfold deldirblocks
    rw [h.ext]
  have hper : deldirEntriesPerBlock w₁.vol.rootblock.reservedBlksize = w.slotsPerBlock := by
    rw [hrb]
    rfl
  obtain ⟨-, hn⟩ := hw.slotsPerBlock_pos
  unfold Writer.moveToDeldir at hrun
  rw [bind_of_ok (rfl : (get : WriterM Writer) _ = .ok _ _), hflag, if_neg (by decide),
    hblocks] at hrun
  dsimp only at hrun
  cases hlist : deldirblocks w with
  | nil =>
      rw [deldirSlots, hlist] at hfree
      exact absurd hfree List.not_mem_nil
  | cons blk rest =>
      rw [hlist] at hrun
      dsimp only at hrun
      rw [hper] at hrun
      obtain ⟨filled, w₃, hfill, hrun₁⟩ := of_bind_eq_ok hrun
      obtain ⟨rfl, b, hb, data, hfilled, hahead⟩ := h.fillDeldirSlot hw.stable he hn (blk :: rest)
        (hlist ▸ ht.reserved) (hlist ▸ ht.id) (by rw [← hlist]; exact hfree) hfill
      rw [if_pos rfl] at hrun₁
      cases hrun₁
      exact ⟨rfl, b, hb, data, hfilled, hahead⟩

/-- One slot of the deldir changes. -/
theorem deldirSlots_filled (hnodup : (deldirblocks w).Nodup) (hb : b ∈ deldirblocks w)
    (h : Filled w.slotsPerBlock e view b data) : ∃ before after,
      w.deldirSlots view = before ++ none :: after ∧
      w.deldirSlots (Function.update view b (.ok data)) = before ++ some (buried e) :: after := by
  obtain ⟨before, after, hold, hnew⟩ := h.slots
  obtain ⟨pre, post, hsplit⟩ := List.append_of_mem hb
  rw [hsplit] at hnodup
  obtain ⟨-, hnot, hdisjoint⟩ := List.nodup_append'.mp hnodup
  have hother : ∀ x, x ≠ b → blockSlots (Function.update view b (.ok data)) w.slotsPerBlock x =
      blockSlots view w.slotsPerBlock x := fun x hx => by
    rw [blockSlots, Function.update_of_ne hx]
    rfl
  have hpre : ∀ x ∈ pre, x ≠ b := by
    rintro x hx rfl
    exact hdisjoint hx List.mem_cons_self
  have hpost : ∀ x ∈ post, x ≠ b := by
    rintro x hx rfl
    exact (List.nodup_cons.mp hnot).1 hx
  have hself : blockSlots (Function.update view b (.ok data)) w.slotsPerBlock b =
      Deldir.slots w.slotsPerBlock data := by
    rw [blockSlots, Function.update_self]
  refine ⟨pre.flatMap (blockSlots view w.slotsPerBlock) ++ before,
    after ++ post.flatMap (blockSlots view w.slotsPerBlock), ?_, ?_⟩
  · rw [deldirSlots, hsplit, List.flatMap_append, List.flatMap_cons, hold]
    simp only [List.append_assoc, List.cons_append]
  · rw [deldirSlots, hsplit, List.flatMap_append, List.flatMap_cons, hself, hnew,
      List.flatMap_congr fun x hx => hother x (hpre x hx),
      List.flatMap_congr fun x hx => hother x (hpost x hx)]
    simp only [List.append_assoc, List.cons_append]

/-- A block that is not in the index changes; a block of the deldir keeps its id. -/
theorem HasDeldir.update (ht : w.HasDeldir view free) (hb : w.Outside view free b)
    (hid : b ∈ deldirblocks w → be16 data 0 = DELDIRID) :
    w.HasDeldir (Function.update view b (.ok data)) free where
  flag := ht.flag
  nodup := ht.nodup
  reserved := ht.reserved
  outside := fun x hx => (ht.outside x hx).update (hb.same (.ok data))
  id := fun x hx => by
    by_cases hxb : x = b
    · subst hxb
      exact ⟨data, Function.update_self .., hid hx⟩
    · obtain ⟨d, hd, hmark⟩ := ht.id x hx
      exact ⟨d, (Function.update_of_ne hxb _ _).trans hd, hmark⟩

/-- The deldir after a commit. -/
theorem HasDeldir.commit (hw : w.Consistent) (h : Ahead w w₁ view free) (htable : w.Table view free)
    (ht : w.HasDeldir view free) (hcommit : updateRootblock w₁ = .ok () w₂) :
    w₂.HasDeldir w₂.blockOf w₂.isFree ∧ deldirblocks w₂ = deldirblocks w ∧
      w₂.deldirSlots w₂.blockOf = w.deldirSlots view := by
  obtain ⟨hc, hblocks, hplace, -⟩ := hw.commit h htable hcommit
  obtain ⟨m, hrb⟩ := hc.rootblock
  have hlist : deldirblocks w₂ = deldirblocks w := by
    unfold deldirblocks
    rw [hc.ext]
  have hper : w₂.slotsPerBlock = w.slotsPerBlock := by
    rw [slotsPerBlock, hrb]
    rfl
  refine ⟨⟨by rw [hrb]; exact ht.flag, hlist ▸ ht.nodup, ?_, ?_, ?_⟩, hlist, ?_⟩
  · rw [hlist, hc.reserved]
    exact ht.reserved
  · intro b hb
    rw [hlist] at hb
    have hout := ht.outside b hb
    refine ⟨hout.ne_zero, fun p => ?_, fun k hk => ?_⟩
    · rw [hc.anodes, hplace]
      exact hout.place p
    · rw [hc.firstreserved, hc.rescluster] at hk
      rw [hc.free]
      exact hout.used k hk
  · intro b hb
    rw [hlist] at hb
    rw [hblocks b (ht.reserved b hb)]
    exact ht.id b hb
  · rw [deldirSlots, deldirSlots, hlist, hper]
    refine List.flatMap_congr fun b hb => ?_
    rw [blockSlots, hblocks b (ht.reserved b hb)]
    rfl

/-! ## The listing -/

theorem listDeldirBlocks_reads (hw : w.Consistent) (blks : List ℕ) : (∀ b ∈ blks, w.Reserved b) →
    (∀ b ∈ blks, b ≠ 0) → (∀ b ∈ blks, ∃ data, w.blockOf b = .ok data ∧ be16 data 0 = DELDIRID) →
    Reads (BlockCache.Shows w.vol.dev w.resblocksize w.Reserved) Eq
      (Volume.listDeldirBlocks w.resblocksize w.vol.dev blks)
      (.ok (blks.flatMap
        (blockSlots w.blockOf (deldirEntriesPerBlock w.resblocksize))).reduceOption) := by
  induction blks with
  | nil => exact fun _ _ _ => reads_pure rfl
  | cons b rest ih =>
      intro hres hpos hid
      obtain ⟨data, hdata, hmark⟩ := hid b List.mem_cons_self
      have hread := @BlockCache.readReserved_shows w.vol.dev w.resblocksize w.Reserved b
        (hres b List.mem_cons_self)
      rw [hw.stable.readReserved_eq, hdata] at hread
      have hrest := ih (fun x hx => hres x (List.mem_cons_of_mem _ hx))
        (fun x hx => hpos x (List.mem_cons_of_mem _ hx)) fun x hx =>
          hid x (List.mem_cons_of_mem _ hx)
      rw [Volume.listDeldirBlocks, if_neg (hpos b List.mem_cons_self)]
      refine hread.seq (hrest.seq (reads_pure ?_))
      rw [deldirBlockEntries_eq hmark, List.flatMap_cons, List.reduceOption_append, blockSlots,
        hdata]

theorem listDeldirBlocks_filter (rbs : ℕ) (dev : Device) (blks : List ℕ) :
    Volume.listDeldirBlocks rbs dev (blks.filter (· ≠ 0)) =
      Volume.listDeldirBlocks rbs dev blks := by
  induction blks with
  | nil => rfl
  | cons b rest ih =>
      by_cases hb : b = 0
      · rw [List.filter_cons_of_neg (by simpa using hb), Volume.listDeldirBlocks, if_pos hb, ih]
      · rw [List.filter_cons_of_pos (by simpa using hb), Volume.listDeldirBlocks,
          Volume.listDeldirBlocks, if_neg hb, if_neg hb, ih]

/-- `list_deldir` gives the slots that are used. -/
theorem HasDeldir.listing (hw : w.Consistent) (ht : w.HasDeldir w.blockOf w.isFree) :
    outcome (Volume.listDeldir w.vol) = .ok (w.deldirSlots w.blockOf).reduceOption := by
  have hrbs := hw.reservedBlksize_eq
  have hread := listDeldirBlocks_reads hw (deldirblocks w) ht.reserved
    (fun b hb => by simpa using (List.mem_filter.mp hb).2) ht.id
  unfold Volume.listDeldir
  rw [bind_of_ok (rfl : (get : VolumeM Volume) _ = .ok _ _), ht.flag, if_neg (by decide)]
  rw [deldirSlots, slotsPerBlock, hrbs]
  cases hext : w.vol.rootblockExt with
  | none =>
      have hnil : deldirblocks w = [] := by
        rw [deldirblocks, hext]
        rfl
      rw [hnil]
      rfl
  | some rext =>
      have hlist : deldirblocks w = rext.deldirblocks.filter (· ≠ 0) := by
        rw [deldirblocks, hext]
        rfl
      rw [hlist, listDeldirBlocks_filter] at hread
      obtain ⟨_, c, hrun, rfl, -⟩ := hread w.vol.cache hw.stable.cache
      dsimp only [Volume.onCache, zoom]
      rw [hrun, hlist]
      rfl

/-! ## A deletion -/

/-- The fields of an entry are within the widths of its slot. -/
theorem fits_ofRaw {raw : Bytes} (h : (DirEntry.ofRaw raw).anode ≠ 0) :
    Fits (DirEntry.ofRaw raw) := by
  obtain ⟨-, -, hanode, hfsize, hfsizex, -⟩ := ofRaw_bounds raw
  exact ⟨Nat.pos_of_ne_zero h, hanode, (fileSize_halves _ hfsize hfsizex).2.2, be16_lt _ _,
    be16_lt _ _, be16_lt _ _⟩

theorem find_first {raws rest : List Bytes} {raw : Bytes} {name : Name}
    (hno : ∀ r ∈ raws, nameEqCi (nameOf r) name = false)
    (hyes : nameEqCi (nameOf raw) name = true) :
    ((raws ++ raw :: rest).map DirEntry.ofRaw).find? (fun e => nameEqCi e.name name) =
      some (DirEntry.ofRaw raw) := by
  rw [List.map_append, List.find?_append, List.find?_eq_none.mpr, Option.none_or, List.map_cons,
    List.find?_cons_of_pos]
  · exact hyes
  intro e he
  obtain ⟨r, hr, rfl⟩ := List.mem_map.mp he
  rw [Bool.not_eq_true]
  exact hno r hr

/-- An entry of a file that has an anode. -/
def IsFile (raw : Bytes) : Prop :=
  (DirEntry.ofRaw raw).isDir = false ∧ (DirEntry.ofRaw raw).anode ≠ 0

/-- A file is deleted while the deldir has a free slot: its entry leaves the directory and is in the
slot, and every other entry and slot stays. -/
theorem of_deleteIn (hw : w.Consistent) (hd : w.HasDirectory parent blks blocks)
    (ht : w.HasDeldir w.blockOf w.isFree) (hapart : (deldirblocks w).Disjoint blks)
    (hfree : none ∈ w.deldirSlots w.blockOf) {name : Name}
    (hfile : ∀ r ∈ blocks.flatten, nameEqCi (nameOf r) name = true → IsFile r)
    (hrun : deleteIn parent name w = .ok () w₂) :
    ∃ blocks₂ pre raw post before after, w₂.Consistent ∧ w₂.HasDirectory parent blks blocks₂ ∧
      w₂.HasDeldir w₂.blockOf w₂.isFree ∧ deldirblocks w₂ = deldirblocks w ∧
      nameEqCi (nameOf raw) name = true ∧ blocks.flatten = pre ++ raw :: post ∧
      blocks₂.flatten = pre ++ post ∧ w.deldirSlots w.blockOf = before ++ none :: after ∧
      w₂.deldirSlots w₂.blockOf = before ++ some (buried (DirEntry.ofRaw raw)) :: after := by
  unfold deleteIn at hrun
  obtain ⟨entries, w₁, hlist, hrun₁⟩ := of_bind_eq_ok hrun
  obtain ⟨w₁', hahead, -, -, heq⟩ := hw.stable.ahead.listDirByAnode hw hd
  rw [heq, listingOf] at hlist
  split at hlist
  swap
  · cases hlist
  cases hlist
  cases hfind : (blocks.flatten.map DirEntry.ofRaw).find? fun e => nameEqCi e.name name with
  | none =>
      rw [hfind] at hrun₁
      cases hrun₁
  | some target =>
      rw [hfind] at hrun₁
      obtain ⟨r, hr, rfl⟩ := List.mem_map.mp (List.mem_of_find?_eq_some hfind)
      have hmatch := List.find?_some hfind
      obtain ⟨hdir, hanode⟩ := hfile r hr hmatch
      dsimp only at hrun₁
      rw [hdir, if_neg Bool.false_ne_true] at hrun₁
      obtain ⟨moved, w₃, hmove, hrun₂⟩ := of_bind_eq_ok hrun₁
      obtain ⟨rfl, b, hb, data, hfilled, hahead⟩ :=
        hahead.moveToDeldir hw ht (fits_ofRaw hanode) hfree hmove
      rw [if_pos rfl] at hrun₂
      obtain ⟨_, w₄, hremove, hcommit⟩ := of_bind_eq_ok hrun₂
      have hout := ht.outside b hb
      have hholds : List.Forall₂ (InBlock (Function.update w.blockOf b (.ok data))) blks blocks :=
        holds_congr hd.holds fun x hx => Function.update_of_ne (by
          rintro rfl
          exact hapart hb hx) _ _
      obtain ⟨hd₁, htable⟩ := hd.revise hw.indexed.table hout hholds
      have ht₁ := ht.update hout fun _ => hfilled.id
      obtain ⟨chain, hchain, hsingle, hmap⟩ := hd.chain
      obtain ⟨-, pre, post, before, after, blk, inner, rest, raw, data', hat, hahead, hdata,
        hearlier, hhere⟩ := hahead.removeDirEntry hw.stable hw.indexed hchain hsingle hmap
          (fun x hx => (hd.reserved x hx).1) hd₁.holds hremove
      obtain ⟨hd₂, htable₂⟩ := hd₁.update htable hat hdata
      have hnot : blk ∉ deldirblocks w := fun hcon => hapart hcon hat.mem
      have ht₂ := @HasDeldir.update w _ _ blk data' ht₁ (hd₁.outside blk hat.mem) fun hcon =>
        absurd hcon hnot
      obtain ⟨hw₂, hd₂⟩ := hd₂.commit hw hahead htable₂ hcommit
      obtain ⟨ht₂, hblocks, hslots⟩ := ht₂.commit hw hahead htable₂ hcommit
      obtain ⟨hbefore, hafter⟩ := hat.dropped
      have hsame : DirEntry.ofRaw raw = DirEntry.ofRaw r := by
        rw [hbefore, find_first hearlier hhere] at hfind
        exact Option.some.inj hfind
      obtain ⟨front, back, hold, hnew⟩ := deldirSlots_filled ht.nodup hb hfilled
      have hkept : w.deldirSlots (Function.update (Function.update w.blockOf b (.ok data)) blk
          (.ok data')) = w.deldirSlots (Function.update w.blockOf b (.ok data)) := by
        refine List.flatMap_congr fun x hx => ?_
        have hne : x ≠ blk := by
          rintro rfl
          exact hnot hx
        rw [blockSlots, Function.update_of_ne hne]
        rfl
      refine ⟨_, _, raw, _, front, back, hw₂, hd₂, ht₂, hblocks, hhere, hbefore, hafter, hold, ?_⟩
      rw [hslots, hkept, hnew, hsame]

/-! ## Deletions one after the other -/

/-- The calls for these names. -/
def deleteAll (parent : ℕ) : List Name → WriterM Unit
  | [] => pure ()
  | name :: rest => do
      deleteIn parent name
      deleteAll parent rest

/-- The raw entries of files that the names stand for. -/
def Matches (raws : List Bytes) (names : List Name) : Prop :=
  List.Forall₂ (fun raw name => nameEqCi (nameOf raw) name = true) raws names

theorem of_deleteAll (names : List Name) : ∀ {w : Writer} {blocks : List (List Bytes)},
    w.Consistent → w.HasDirectory parent blks blocks → w.HasDeldir w.blockOf w.isFree →
    (deldirblocks w).Disjoint blks → names.length ≤ (w.deldirSlots w.blockOf).count none →
    (∀ r ∈ blocks.flatten, ∀ name ∈ names, nameEqCi (nameOf r) name = true → IsFile r) →
    deleteAll parent names w = .ok () w₂ → ∃ blocks₂ raws, w₂.Consistent ∧
      w₂.HasDirectory parent blks blocks₂ ∧ w₂.HasDeldir w₂.blockOf w₂.isFree ∧
      Matches raws names ∧ blocks₂.flatten.Sublist blocks.flatten ∧
      blocks.flatten.Perm (raws ++ blocks₂.flatten) ∧
      (w₂.deldirSlots w₂.blockOf).reduceOption.Perm
        (raws.map (fun r => buried (DirEntry.ofRaw r)) ++
          (w.deldirSlots w.blockOf).reduceOption) := by
  induction names with
  | nil =>
      intro w blocks hw hd ht _ _ _ hrun
      cases hrun
      exact ⟨blocks, [], hw, hd, ht, .nil, List.Sublist.refl _, .refl _, .refl _⟩
  | cons name rest ih =>
      intro w blocks hw hd ht hapart hroom hfile hrun
      obtain ⟨_, w₁, hdelete, hrest⟩ := of_bind_eq_ok hrun
      have hfree : none ∈ w.deldirSlots w.blockOf := List.count_pos_iff.mp (by
        rw [List.length_cons] at hroom
        omega)
      obtain ⟨blocks₁, pre, raw, post, before, after, hw₁, hd₁, ht₁, hlist, hhere, hold, hnew,
        hslots, hslots₁⟩ := of_deleteIn hw hd ht hapart hfree
          (fun r hr => hfile r hr name List.mem_cons_self) hdelete
      have hsub : blocks₁.flatten.Sublist blocks.flatten := by
        rw [hold, hnew]
        exact (List.Sublist.refl pre).append (List.sublist_cons_self raw post)
      have hroom₁ : rest.length ≤ (w₁.deldirSlots w₁.blockOf).count none := by
        rw [hslots, List.count_append, List.count_cons_self, List.length_cons] at hroom
        rw [hslots₁, List.count_append, List.count_cons_of_ne (Option.some_ne_none _)]
        omega
      obtain ⟨blocks₂, raws, hw₂, hd₂, ht₂, hmatch, hsub₂, hperm, hlisted⟩ :=
        ih hw₁ hd₁ ht₁ (hlist ▸ hapart) hroom₁
          (fun r hr x hx => hfile r (hsub.subset hr) x (List.mem_cons_of_mem _ hx)) hrest
      refine ⟨blocks₂, raw :: raws, hw₂, hd₂, ht₂, .cons hhere hmatch, hsub₂.trans hsub, ?_, ?_⟩
      · rw [hold]
        refine List.perm_middle.trans ((List.Perm.cons raw ?_))
        rw [← hnew]
        exact hperm
      · refine hlisted.trans ?_
        rw [hslots, hslots₁, List.reduceOption_append, List.reduceOption_append,
          List.reduceOption_cons_of_some, List.reduceOption_cons_of_none, List.map_cons,
          List.cons_append, ← List.append_assoc]
        refine List.perm_middle.trans (List.Perm.cons _ ?_)
        rw [List.append_assoc]

/-- Files are deleted, as many as the deldir has free slots: each of their entries leaves the
directory and is listed by `list_deldir` with its anode, its size and, if it is short ASCII, its
name; the other entries keep their order, and what was listed before still is. -/
theorem deletions_listed (hw : w.Consistent) (hd : w.HasDirectory parent blks blocks)
    (ht : w.HasDeldir w.blockOf w.isFree) (hapart : (deldirblocks w).Disjoint blks)
    {names : List Name} (hroom : names.length ≤ (w.deldirSlots w.blockOf).count none)
    (hfile : ∀ r ∈ blocks.flatten, ∀ name ∈ names, nameEqCi (nameOf r) name = true → IsFile r)
    (hrun : deleteAll parent names w = .ok () w₂) :
    ∃ blocks₂ raws listed listed₂, w₂.Consistent ∧ w₂.HasDirectory parent blks blocks₂ ∧
      Matches raws names ∧ blocks₂.flatten.Sublist blocks.flatten ∧
      blocks.flatten.Perm (raws ++ blocks₂.flatten) ∧
      outcome (Volume.listDeldir w.vol) = .ok listed ∧
      outcome (Volume.listDeldir w₂.vol) = .ok listed₂ ∧
      listed₂.Perm (raws.map (fun r => buried (DirEntry.ofRaw r)) ++ listed) ∧
      ∀ r ∈ raws, (buried (DirEntry.ofRaw r)).anode = (DirEntry.ofRaw r).anode ∧
        (buried (DirEntry.ofRaw r)).fileSize = (DirEntry.ofRaw r).fileSize ∧
        ((∀ c ∈ nameOf r, c.toNat < 128) → (nameOf r).length ≤ 16 →
          (∀ c ∈ (nameOf r).getLast?, c ≠ '\x00') →
          (buried (DirEntry.ofRaw r)).filename = nameOf r) := by
  obtain ⟨blocks₂, raws, hw₂, hd₂, ht₂, hmatch, hsub, hperm, hlisted⟩ :=
    of_deleteAll names hw hd ht hapart hroom hfile hrun
  refine ⟨blocks₂, raws, _, _, hw₂, hd₂, hmatch, hsub, hperm, ht.listing hw, ht₂.listing hw₂,
    hlisted, fun r hr => ⟨rfl, ?_, filename_buried⟩⟩
  have hmem : r ∈ blocks.flatten := hperm.mem_iff.mpr (List.mem_append_left _ hr)
  obtain ⟨i, hi, rfl⟩ := List.getElem_of_mem hr
  have hi' : i < names.length := hmatch.length_eq ▸ hi
  exact fileSize_buried (fits_ofRaw (hfile _ hmem _ (List.getElem_mem hi') (hmatch.get hi hi')).2)

/-! ## Numbers of slots -/

end Steps

end Writer

/-! ## A deldir on a small volume -/

/-- A small volume with a file in its root directory, where the block 8 is an empty deldir. -/
def deldirDevice : Device :=
  { oneAnodeBlock 512 with
    sectors := fun
      | 2 => .ofFields [(0, enc32 ID_PFS_DISK),
          (RB_OFF_OPTIONS, enc32 (MODE_SPLITTED_ANODES ||| MODE_DELDIR ||| MODE_EXTENSION)),
          (RB_OFF_LASTRESERVED, enc32 9), (RB_OFF_FIRSTRESERVED, enc32 2),
          (RB_OFF_RESERVED_FREE, enc32 1), (RB_OFF_RESERVED_BLKSIZE, enc16 512),
          (RB_OFF_RBLKCLUSTER, enc16 2), (RB_OFF_DISKSIZE, enc32 20), (RB_OFF_EXTENSION, enc32 7),
          (0x74, enc32 4)]
      | 3 => .ofFields [(12, enc32 0x01000000)]
      | 6 => .ofFields [(0, enc16 DBLKID), (20, commentedEntry)]
      | 7 => .ofFields [(0, enc16 EXTENSIONID), (0x90, enc32 8)]
      | 8 => .ofFields [(0, enc16 DELDIRID)]
      | n => (oneAnodeBlock 512).sectors n }

/-- The volume is opened and its file is deleted. -/
def deletion : Option (Volume × Writer × Writer) :=
  match Volume.fromDevice deldirDevice with
  | .error _ => none
  | .ok v =>
      match Writer.open v fun _ => ⟨0, 0, 0⟩ with
      | .error _ => none
      | .ok w =>
          match Writer.deleteAll 5 [['A']] w with
          | .error _ _ => none
          | .ok () w₂ => some (v, w, w₂)

/-- The opened writer is as laid out. -/
def hasDeldirAtEight (w : Writer) : Bool :=
  decide (w.firstreserved = 2 ∧ w.rescluster = 1 ∧ w.resBitmap = [0x01000000#32] ∧
    0 < w.indexPerBlock ∧ w.vol.rootblock.isSplittedAnodes = w.vol.anodes.splitMode ∧
    w.anodesPerBlock = w.vol.anodes.anodesPerBlock ∧ ANODE_USERFIRST < w.anodesPerBlock ∧
    w.anodesPerBlock ≤ 5460 ∧ w.vol.rootblock.rblkcluster = 2 ∧ SECTOR_SIZE ∣ w.resblocksize) &&
  decide (w.vol.anodes.isLarge = false ∧
    w.vol.anodes.indexblocks = 4 :: List.replicate 98 0 ∧
    w.vol.anodes.indexPerBlock = w.indexPerBlock ∧
    w.vol.rootblock.hasFlag MODE_DELDIR = true ∧ Writer.deldirblocks w = [8] ∧
    1 ≤ (w.deldirSlots w.blockOf).count none) &&
  (match w.blockOf 4, w.blockOf 6, w.blockOf 8 with
    | .ok data, .ok root, .ok trash => decide (be16 root 0 = DBLKID ∧ (root.take 20).length = 20 ∧
        root = root.take 20 ++ commentedEntry ++ 0 :: root.drop 45 ∧ be16 trash 0 = DELDIRID) &&
        (List.range w.indexPerBlock).all fun o =>
          decide (indexEntry data o = if o = 0 then 5 else 0)
    | _, _, _ => false) &&
  match w.vol.anodes.anodeIn w.blockOf 5 with
  | .ok an => decide (an = ⟨1, 6, 0, 5⟩)
  | .error _ => false

def deleted : Evaluated deletion fun r => hasDeldirAtEight r.2.1 :=
  .of (by decide +kernel)

/-- Two places have a block where the index is one block with one entry. -/
theorem Writer.places_of_index {w : Writer} {data : Bytes} (hlarge : w.vol.anodes.isLarge = false)
    (hblocks : w.vol.anodes.indexblocks = 4 :: List.replicate 98 0)
    (hipb : w.vol.anodes.indexPerBlock = w.indexPerBlock) (hdata : w.blockOf 4 = .ok data)
    (hentries : ∀ o < w.indexPerBlock, indexEntry data o = if o = 0 then 5 else 0)
    (hpos : 0 < w.indexPerBlock) {p : Place} {b : ℕ} (hb : b ≠ 0)
    (hplace : w.vol.anodes.placeIn w.blockOf p = .ok b) :
    (p = .index 0 ∧ b = 4) ∨ (p = .anode 0 ∧ b = 5) := by
  have hindex : ∀ i, w.vol.anodes.indexIn w.blockOf i = .ok (if i = 0 then 4 else 0) := by
    intro i
    rw [AnodeReader.indexIn, hlarge, if_neg Bool.false_ne_true, hblocks]
    cases i with
    | zero => rfl
    | succ i =>
        rw [List.getD_cons_succ, if_neg (Nat.succ_ne_zero i), List.getD_eq_getElem?_getD,
          List.getElem?_replicate]
        split <;> rfl
  cases p with
  | super n =>
      rw [AnodeReader.placeIn, hlarge, if_neg Bool.false_ne_true] at hplace
      exact absurd (Except.ok.inj hplace).symm hb
  | index i =>
      rw [AnodeReader.placeIn, hindex] at hplace
      split at hplace
      · exact .inl ⟨by rw [‹i = 0›], (Except.ok.inj hplace).symm⟩
      · exact absurd (Except.ok.inj hplace).symm hb
  | anode s =>
      rw [AnodeReader.placeIn, AnodeReader.resolveIn_of_index (hindex _), hipb] at hplace
      by_cases hdiv : s / w.indexPerBlock = 0
      · rw [if_pos hdiv, if_neg (by decide), AnodeReader.entryIn_ok hdata,
          hentries _ (Nat.mod_lt _ hpos)] at hplace
        split at hplace
        · have hs := Nat.div_add_mod s w.indexPerBlock
          rw [hdiv, ‹s % w.indexPerBlock = 0›, Nat.mul_zero] at hs
          exact .inr ⟨by rw [← hs], (Except.ok.inj hplace).symm⟩
        · exact absurd (Except.ok.inj hplace).symm hb
      · rw [if_neg hdiv, if_pos rfl] at hplace
        exact absurd (Except.ok.inj hplace).symm hb

theorem isFile_commentedEntry : IsEntry commentedEntry ∧ Writer.IsFile commentedEntry :=
  ⟨⟨by decide, by decide⟩, by decide, by decide⟩

theorem of_deletion {v : Volume} {w w₂ : Writer} (h : deletion = some (v, w, w₂))
    (hlaid : hasDeldirAtEight w = true) : w.Consistent ∧ w.HasDirectory 5 [6] [[commentedEntry]] ∧
      w.HasDeldir w.blockOf w.isFree ∧ Writer.deldirblocks w = [8] ∧
      1 ≤ (w.deldirSlots w.blockOf).count none ∧ Writer.deleteAll 5 [['A']] w = .ok () w₂ := by
  unfold deletion at h
  split at h
  · cases h
  rename_i v' hdev
  split at h
  · cases h
  rename_i w' hopen
  split at h
  · cases h
  rename_i w₂' hdelete
  cases h
  have hv := Volume.opened_of_fromDevice hdev
  have hon := Writer.openedOn_of_open hv hopen
  obtain ⟨c, hvol, -⟩ := hon.vol
  unfold hasDeldirAtEight at hlaid
  rw [Bool.and_eq_true, Bool.and_eq_true, Bool.and_eq_true] at hlaid
  obtain ⟨⟨⟨hfields, hanodes⟩, hblocks⟩, hanode⟩ := hlaid
  obtain ⟨hfirst, hcluster, hbitmap, hpos, hsplit, hapb, huser, hsmall, hroot, hwhole⟩ :=
    of_decide_eq_true hfields
  obtain ⟨hlarge, hindex, hipb, hflag, height, hroom⟩ := of_decide_eq_true hanodes
  split at hblocks
  swap
  · cases hblocks
  rename_i data root trash hdata hdir htrash
  rw [Bool.and_eq_true] at hblocks
  obtain ⟨hid, hhead, hbytes, hmark⟩ := of_decide_eq_true hblocks.1
  have hentries := fun o (ho : o < w.indexPerBlock) => of_decide_eq_true
    (List.all_eq_true.mp hblocks.2 o (List.mem_range.mpr ho))
  split at hanode
  swap
  · cases hanode
  rename_i an han
  rw [of_decide_eq_true hanode] at han
  have hplaces : ∀ p b, b ≠ 0 → w.vol.anodes.placeIn w.blockOf p = .ok b →
      (p = .index 0 ∧ b = 4) ∨ (p = .anode 0 ∧ b = 5) := fun p b =>
    Writer.places_of_index hlarge hindex hipb hdata hentries hpos
  have hreserved : ∀ k, 2 ≤ k → w.Reserved (2 + k) := fun k hk => by
    unfold Writer.Reserved Writer.OnGrid
    rw [hfirst, hcluster, hroot]
    exact ⟨⟨k, by omega⟩, by omega⟩
  have hused : ∀ k < 7, w.isFree k = false := by
    unfold Writer.isFree
    rw [hbitmap]
    decide
  have houtside : ∀ k, 4 ≤ k → k < 7 → w.Outside w.blockOf w.isFree (2 + k) := by
    refine fun k hk hk' => ⟨by omega, fun p hp => ?_, fun k' hk'' => ?_⟩
    · rcases hplaces p _ (by omega) hp with ⟨-, hcon⟩ | ⟨-, hcon⟩ <;> omega
    · rw [hfirst, hcluster] at hk''
      exact hused k' (by omega)
  have hsix : ∀ b ∈ [6], w.Reserved b ∧ w.Outside w.blockOf w.isFree b := fun b hb =>
    List.mem_singleton.mp hb ▸ ⟨hreserved 4 (by decide), houtside 4 (by decide) (by decide)⟩
  have height' : ∀ b ∈ Writer.deldirblocks w, b = 8 := fun b hb => by
    rw [height] at hb
    exact List.mem_singleton.mp hb
  refine ⟨⟨(committed_of_open hv hopen).stable, ?_, ⟨hsplit, hapb, huser, hsmall⟩, by omega,
    hwhole⟩, ⟨⟨[⟨1, 6, 0, 5⟩], ?_, ?_, rfl⟩, List.nodup_singleton 6, fun b hb => (hsix b hb).1,
    fun b hb => (hsix b hb).2, ?_⟩, ⟨hflag, ?_, ?_, ?_, ?_⟩, height, hroom, hdelete⟩
  · refine ⟨?_, ?_, fun k hk => ?_, fun p q b hb hp hq => ?_, fun p b hb hp => ?_,
      fun p b hb hp => ?_⟩
    · have hnew := (Writer.readers_of_fromDevice hdev).2
      rw [hvol]
      exact hnew
    · rw [hon.indexPerBlock, hvol]
    · rw [hroot, hcluster]
      by_contra hlt
      rw [hused k (by omega)] at hk
      cases hk
    · rcases hplaces p b hb hp with ⟨rfl, rfl⟩ | ⟨rfl, rfl⟩
      · rcases hplaces q 4 hb hq with ⟨rfl, -⟩ | ⟨-, hcon⟩
        · rfl
        · cases hcon
      · rcases hplaces q 5 hb hq with ⟨-, hcon⟩ | ⟨rfl, -⟩
        · cases hcon
        · rfl
    · unfold Writer.InUse
      rw [hfirst, hcluster]
      rcases hplaces p b hb hp with ⟨-, rfl⟩ | ⟨-, rfl⟩
      · exact ⟨2, rfl, hused 2 (by decide)⟩
      · exact ⟨3, rfl, hused 3 (by decide)⟩
    · rw [hfirst, hroot]
      rcases hplaces p b hb hp with ⟨-, rfl⟩ | ⟨-, rfl⟩ <;> decide
  · exact ⟨by decide, han, rfl⟩
  · intro an han
    rw [List.mem_singleton.mp han]
  · refine .cons ⟨root, hdir, hid, fun raw hraw => ?_, root.take 20, root.drop 45, hhead, ?_⟩ .nil
    · rw [List.mem_singleton.mp hraw]
      exact isFile_commentedEntry.1
    · rw [List.flatten_singleton]
      exact hbytes
  · rw [height]
    exact List.nodup_singleton 8
  · exact fun b hb => height' b hb ▸ hreserved 6 (by decide)
  · exact fun b hb => height' b hb ▸ houtside 6 (by decide) (by decide)
  · exact fun b hb => height' b hb ▸ ⟨trash, htrash, hmark⟩

/-- The file is found in the deldir. -/
theorem Writer.deletions_listed_commented : ∃ w w₂ blocks₂ raws listed listed₂,
    Writer.deleteAll 5 [['A']] w = .ok () w₂ ∧ w₂.HasDirectory 5 [6] blocks₂ ∧
    Writer.Matches raws [['A']] ∧ [commentedEntry].Perm (raws ++ blocks₂.flatten) ∧
    outcome (Volume.listDeldir w.vol) = .ok listed ∧
    outcome (Volume.listDeldir w₂.vol) = .ok listed₂ ∧
    listed₂.Perm (raws.map (fun r => Deldir.buried (DirEntry.ofRaw r)) ++ listed) := by
  obtain ⟨⟨v, w, w₂⟩, hrun, hlaid⟩ := deleted
  obtain ⟨hw, hd, ht, height, hroom, hdelete⟩ := of_deletion hrun hlaid
  have hapart : (Writer.deldirblocks w).Disjoint [6] := by
    rw [height]
    exact List.disjoint_singleton.mpr (by decide)
  have hroom' : [['A']].length ≤ (w.deldirSlots w.blockOf).count none := hroom
  obtain ⟨blocks₂, raws, listed, listed₂, -, hd₂, hmatch, -, hperm, hlist, hlist₂, hlisted, -⟩ :=
    Writer.deletions_listed hw hd ht hapart hroom'
      (fun r hr name _ _ => by
        rw [List.flatten_singleton] at hr
        rw [List.mem_singleton.mp hr]
        exact isFile_commentedEntry.2) hdelete
  exact ⟨w, w₂, blocks₂, raws, listed, listed₂, hdelete, hd₂, hmatch, hperm, hlist, hlist₂,
    hlisted⟩

end Pfs3
