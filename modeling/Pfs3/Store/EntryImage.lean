import Pfs3.Store.Image

/-!
# Entry images

The bytes of a directory entry, that `build_dir_entry` produces them, and what the parsers
find in a block where such bytes stand.
-/

namespace Pfs3

open ByteList

namespace Entry

/-- The fixed fields before the size. -/
def front (e : Entry) : Bytes := [UInt8.ofNat e.size, e.type] ++ enc32 e.anode.toNat

def dateBytes (e : Entry) : Bytes :=
  enc16 e.day.toNat ++ enc16 e.minute.toNat ++ enc16 e.tick.toNat

/-- Protection, name, empty comment and padding. -/
def nameBytes (e : Entry) : Bytes :=
  [e.protection, UInt8.ofNat e.name.length] ++ e.name ++
    List.replicate (if (18 + e.name.length + 1) % 2 ≠ 0 then 2 else 1) 0

/-- The flags of the extra fields and `fsizex`. -/
def extraBytes (e : Entry) : Bytes :=
  match e.fsizex with
  | some x => enc16 0x0040 ++ enc16 x.toNat
  | none => enc16 0

/-- The bytes of the entry. -/
def bytes (e : Entry) : Bytes :=
  e.front ++ enc32 e.fsize.toNat ++ e.dateBytes ++ e.nameBytes ++ e.extraBytes

/-- Where the extra fields start. -/
def fieldPos (e : Entry) : ℕ := (18 + e.name.length + 2) / 2 * 2

@[simp] theorem length_front (e : Entry) : e.front.length = 6 := rfl

@[simp] theorem length_dateBytes (e : Entry) : e.dateBytes.length = 6 := rfl

theorem length_nameBytes (e : Entry) : 16 + e.nameBytes.length = e.fieldPos := by
  simp only [nameBytes, List.length_append, List.length_cons, List.length_nil,
    List.length_replicate, fieldPos]
  split <;> omega

theorem length_extraBytes (e : Entry) :
    e.extraBytes.length = if e.fsizex.isSome then 4 else 2 := by
  unfold extraBytes
  cases e.fsizex <;> rfl

@[simp] theorem length_bytes (e : Entry) : e.bytes.length = e.size := by
  have hname := e.length_nameBytes
  have hextra := e.length_extraBytes
  simp only [bytes, List.length_append, length_front, length_enc32, length_dateBytes, hextra, size]
  simp only [fieldPos] at hname
  split <;> omega

theorem size_le (e : Entry) : e.size ≤ 130 := by
  have h := e.name_le
  simp only [size]
  split <;> omega

theorem name_lt_size (e : Entry) : 18 + e.name.length < e.size := by
  simp only [size]
  split <;> omega

theorem fieldPos_lt (e : Entry) : e.fieldPos + 2 ≤ e.size := by
  simp only [size, fieldPos]
  split <;> omega

/-- The `fsizex` field is the end of the entry. -/
theorem fieldPos_le (e : Entry) {x : UInt16} (hx : e.fsizex = some x) : e.fieldPos + 2 + 2 ≤ e.size := by
  simp only [size, fieldPos, hx, Option.isSome_some, if_true]
  omega

end Entry

theorem be16_enc_uint16 (x : UInt16) (rest : Bytes) : be16 (enc16 x.toNat ++ rest) 0 = x.toNat := by
  rw [be16_enc16, Nat.mod_eq_of_lt x.toNat_lt]

/-- `build_dir_entry` writes the bytes of the built entry. -/
theorem buildDirEntry_eq (now : Datestamp) (name : Name) (entryType : ℤ)
    (anode fsize protection : ℕ) :
    Writer.buildDirEntry now name entryType anode fsize protection =
      (Entry.build now name entryType anode fsize protection).bytes := by
  set e := Entry.build now name entryType anode fsize protection with he
  -- the code pads the entry to its size, but it is never shorter
  have hpad : ∀ (entry : Bytes) (base : ℕ), entry = e.bytes → base = e.size →
      entry ++ List.replicate (base - entry.length) 0 = e.bytes := by
    rintro entry base rfl rfl
    rw [Entry.length_bytes, Nat.sub_self, List.replicate_zero, List.append_nil]
  have hname : (asBytes name).take 107 = e.name := rfl
  have hdate : ∀ v, enc16 (UInt16.ofNat v).toNat = enc16 v := fun v => by
    rw [UInt16.toNat_ofNat', enc16_mod]
  have hword : ∀ v, enc32 (UInt32.ofNat v).toNat = enc32 v := fun v => by
    rw [UInt32.toNat_ofNat', enc32_mod]
  have hgap : (if (18 + e.name.length + 1) % 2 ≠ 0 then 18 + e.name.length + 2
      else 18 + e.name.length + 1) - (18 + e.name.length) =
      if (18 + e.name.length + 1) % 2 ≠ 0 then 2 else 1 := by
    split <;> omega
  have hextra : (if 0 < fsize / U32 % 65536 then
      enc16 0x0040 ++ enc16 (fsize / U32 % 65536) else enc16 0) = e.extraBytes := by
    by_cases hfx : 0 < fsize / U32 % 65536
    · have hmod : enc16 (fsize / U32 % 65536) = enc16 (fsize / U32) := enc16_mod _
      simp only [he, Entry.build, Entry.extraBytes, hfx, if_true, hdate, hmod]
    · simp only [he, Entry.build, Entry.extraBytes, hfx, if_false]
  have hsize : (if (18 + e.name.length + 1 + (if 0 < fsize / U32 % 65536 then 4 else 2)) % 2 ≠ 0
      then 18 + e.name.length + 1 + (if 0 < fsize / U32 % 65536 then 4 else 2) + 1
      else 18 + e.name.length + 1 + (if 0 < fsize / U32 % 65536 then 4 else 2)) = e.size := by
    have hsome : e.fsizex.isSome = decide (0 < fsize / U32 % 65536) := by
      simp only [he, Entry.build]
      split <;> simp_all
    simp only [Entry.size, hsome, decide_eq_true_eq]
    split <;> split <;> omega
  unfold Writer.buildDirEntry
  refine hpad _ _ ?_ ?_
  · simp only [hname, hsize, hgap, hextra]
    simp only [Entry.bytes, Entry.front, Entry.dateBytes, Entry.nameBytes]
    simp only [he, Entry.build, hdate, hword, List.append_assoc]
  · simp only [hname, hsize]

/-! ## Entries inside a block -/

/-- The bytes of `e` stand at `pos`. -/
def EntryAt (data : Bytes) (pos : ℕ) (e : Entry) : Prop := ∃ rest, data.drop pos = e.bytes ++ rest

theorem getD_of_drop {data l : Bytes} {pos : ℕ} (h : data.drop pos = l) (i : ℕ) :
    data.getD (pos + i) 0 = l.getD i 0 := by
  rw [← h, List.getD_eq_getElem?_getD, List.getD_eq_getElem?_getD, List.getElem?_drop]

theorem be32_of_drop {data l : Bytes} {pos : ℕ} (h : data.drop pos = l) (i : ℕ) :
    be32 data (pos + i) = be32 l i := by
  unfold be32
  rw [← h, List.drop_drop]

theorem be16_of_drop {data l : Bytes} {pos : ℕ} (h : data.drop pos = l) (i : ℕ) :
    be16 data (pos + i) = be16 l i := by
  unfold be16
  rw [← h, List.drop_drop]

namespace EntryAt

variable {data : Bytes} {pos : ℕ} {e : Entry}

theorem le_length (h : EntryAt data pos e) : pos + e.size ≤ data.length := by
  obtain ⟨rest, h⟩ := h
  have hlen := congrArg List.length h
  rw [List.length_drop, List.length_append, Entry.length_bytes] at hlen
  have hpos := e.name_lt_size
  omega

theorem esize (h : EntryAt data pos e) : (data.getD pos 0).toNat = e.size := by
  obtain ⟨rest, h⟩ := h
  have hd := getD_of_drop h 0
  have hle := e.size_le
  rw [Nat.add_zero] at hd
  rw [hd]
  change (UInt8.ofNat e.size).toNat = _
  rw [UInt8.toNat_ofNat', Nat.mod_eq_of_lt (by omega)]

theorem type (h : EntryAt data pos e) : (data.getD (pos + 1) 0).toNat = e.type.toNat := by
  obtain ⟨rest, h⟩ := h
  rw [getD_of_drop h 1]
  rfl

theorem anode (h : EntryAt data pos e) : be32 data (pos + 2) = e.anode.toNat := by
  obtain ⟨rest, h⟩ := h
  have hb := be32_append [UInt8.ofNat e.size, e.type] (enc32 e.anode.toNat ++
    (enc32 e.fsize.toNat ++ (e.dateBytes ++ (e.nameBytes ++ (e.extraBytes ++ rest))))) 0
  rw [be32_enc_uint32] at hb
  rw [be32_of_drop h 2, ← hb]
  simp only [Entry.bytes, Entry.front, List.append_assoc]
  rfl

theorem nlen (h : EntryAt data pos e) : (data.getD (pos + 17) 0).toNat = e.name.length := by
  obtain ⟨rest, h⟩ := h
  have hle := e.name_le
  rw [getD_of_drop h 17]
  change (UInt8.ofNat e.name.length).toNat = _
  rw [UInt8.toNat_ofNat', Nat.mod_eq_of_lt (by omega)]

theorem name (h : EntryAt data pos e) :
    (data.drop (pos + 18)).take e.name.length = e.name := by
  obtain ⟨rest, h⟩ := h
  have hd : data.drop (pos + 18) = (e.bytes ++ rest).drop 18 := by rw [← h, List.drop_drop]
  have hb : (e.bytes ++ rest).drop 18 = e.name ++ (List.replicate
      (if (18 + e.name.length + 1) % 2 ≠ 0 then 2 else 1) 0 ++ (e.extraBytes ++ rest)) := by
    simp only [Entry.bytes, Entry.nameBytes, List.append_assoc]
    rfl
  rw [hd, hb, List.take_left]

theorem take (h : EntryAt data pos e) : (data.drop pos).take e.size = e.bytes := by
  obtain ⟨rest, h⟩ := h
  rw [h, List.take_append_of_le_length (by simp), List.take_of_length_le (by simp)]

/-- The extra fields: `clen = 0`, and the flags word at `fieldPos`. -/
theorem drop_name (h : EntryAt data pos e) :
    ∃ rest, data.drop (pos + 18 + e.name.length) =
      List.replicate (if (18 + e.name.length + 1) % 2 ≠ 0 then 2 else 1) 0 ++
        (e.extraBytes ++ rest) := by
  obtain ⟨rest, h⟩ := h
  have hd : data.drop (pos + 18 + e.name.length) =
      (e.bytes ++ rest).drop (18 + e.name.length) := by
    rw [← h, List.drop_drop, Nat.add_assoc]
  have hb : (e.bytes ++ rest).drop 18 = e.name ++ (List.replicate
      (if (18 + e.name.length + 1) % 2 ≠ 0 then 2 else 1) 0 ++ (e.extraBytes ++ rest)) := by
    simp only [Entry.bytes, Entry.nameBytes, List.append_assoc]
    rfl
  refine ⟨rest, ?_⟩
  rw [hd, ← List.drop_drop, hb, List.drop_left]

theorem clen (h : EntryAt data pos e) : data.getD (pos + 18 + e.name.length) 0 = 0 := by
  obtain ⟨rest, h⟩ := h.drop_name
  have hd := getD_of_drop h 0
  rw [Nat.add_zero] at hd
  rw [hd]
  split <;> rfl

theorem drop_fieldPos (h : EntryAt data pos e) :
    ∃ rest, data.drop (pos + e.fieldPos) = e.extraBytes ++ rest := by
  obtain ⟨rest, h⟩ := h.drop_name
  have hpos : pos + e.fieldPos = pos + 18 + e.name.length +
      (if (18 + e.name.length + 1) % 2 ≠ 0 then 2 else 1) := by
    simp only [Entry.fieldPos]
    split <;> omega
  refine ⟨rest, ?_⟩
  rw [hpos, ← List.drop_drop, h]
  exact List.drop_left' (by simp)

end EntryAt

theorem entryAt_bytes (e : Entry) : EntryAt e.bytes 0 e := ⟨[], by simp⟩

end Pfs3
