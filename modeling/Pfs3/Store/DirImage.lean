import Pfs3.Store.EntryImage

/-!
# Directory block images

The bytes of a directory block, and the walks over its entries: listing, finding a name, the
end of the entries, and the updates that add, remove and resize an entry.
-/

namespace Pfs3

open ByteList

/-! ## Parsing an entry -/

namespace EntryAt

variable {data : Bytes} {pos : ℕ} {e : Entry}

theorem fsize (h : EntryAt data pos e) : be32 data (pos + 6) = e.fsize.toNat := by
  obtain ⟨rest, h⟩ := h
  have hb := be32_append e.front (enc32 e.fsize.toNat ++
    (e.dateBytes ++ (e.nameBytes ++ (e.extraBytes ++ rest)))) 0
  rw [be32_enc_uint32] at hb
  rw [be32_of_drop h 6, ← hb]
  simp only [Entry.bytes, List.append_assoc]
  rfl

theorem day (h : EntryAt data pos e) : be16 data (pos + 10) = e.day.toNat := by
  obtain ⟨rest, h⟩ := h
  have hb := be16_append (e.front ++ enc32 e.fsize.toNat) (enc16 e.day.toNat ++
    (enc16 e.minute.toNat ++ (enc16 e.tick.toNat ++ (e.nameBytes ++ (e.extraBytes ++ rest))))) 0
  rw [be16_enc_uint16] at hb
  rw [be16_of_drop h 10, ← hb]
  simp only [Entry.bytes, Entry.dateBytes, List.append_assoc]
  rfl

theorem minute (h : EntryAt data pos e) : be16 data (pos + 12) = e.minute.toNat := by
  obtain ⟨rest, h⟩ := h
  have hb := be16_append (e.front ++ enc32 e.fsize.toNat ++ enc16 e.day.toNat)
    (enc16 e.minute.toNat ++ (enc16 e.tick.toNat ++ (e.nameBytes ++ (e.extraBytes ++ rest)))) 0
  rw [be16_enc_uint16] at hb
  rw [be16_of_drop h 12, ← hb]
  simp only [Entry.bytes, Entry.dateBytes, List.append_assoc]
  rfl

theorem tick (h : EntryAt data pos e) : be16 data (pos + 14) = e.tick.toNat := by
  obtain ⟨rest, h⟩ := h
  have hb := be16_append (e.front ++ enc32 e.fsize.toNat ++ enc16 e.day.toNat ++
    enc16 e.minute.toNat) (enc16 e.tick.toNat ++ (e.nameBytes ++ (e.extraBytes ++ rest))) 0
  rw [be16_enc_uint16] at hb
  rw [be16_of_drop h 14, ← hb]
  simp only [Entry.bytes, Entry.dateBytes, List.append_assoc]
  rfl

theorem protection (h : EntryAt data pos e) :
    (data.getD (pos + 16) 0).toNat = e.protection.toNat := by
  obtain ⟨rest, h⟩ := h
  rw [getD_of_drop h 16]
  simp only [Entry.bytes, Entry.nameBytes, List.append_assoc]
  rfl

end EntryAt

theorem takeField_none {raw : Bytes} {flags flag : ℕ} (h : flags &&& flag = 0) (width pos : ℕ) :
    DirEntry.takeField raw flags flag width pos = (none, pos) := by
  rw [DirEntry.takeField, if_neg]
  rintro ⟨hne, -⟩
  exact hne h

theorem parseExtrafields_bytes (e : Entry) :
    DirEntry.parseExtrafields e.bytes e.name.length =
      { fsizex := (e.fsizex.map UInt16.toNat).getD 0 } := by
  have hat := entryAt_bytes e
  have hlen := e.length_bytes
  have hname := e.name_lt_size
  have hfield := e.fieldPos_lt
  have hclen : (e.bytes.getD (18 + e.name.length) 0).toNat = 0 := by
    have h := hat.clen
    rw [Nat.zero_add] at h
    rw [h]
    rfl
  have hstart : (if (18 + e.name.length + 1 + 0) % 2 ≠ 0 then 18 + e.name.length + 1 + 0 + 1
      else 18 + e.name.length + 1 + 0) = e.fieldPos := by
    simp only [Entry.fieldPos]
    split <;> omega
  obtain ⟨rest, hdrop⟩ := hat.drop_fieldPos
  rw [Nat.zero_add] at hdrop
  have hflags := be16_of_drop hdrop 0
  rw [Nat.add_zero] at hflags
  unfold DirEntry.parseExtrafields
  simp only [hclen, hstart]
  rw [if_neg (by omega), if_neg (by omega), hflags]
  cases hx : e.fsizex with
  | none =>
      have hzero : be16 (e.extraBytes ++ rest) 0 = 0 := by
        rw [Entry.extraBytes, hx]
        exact be16_enc16 0 rest
      rw [hzero]
      simp only [takeField_none (Nat.zero_and _), Option.getD_none, Option.map_none]
  | some x =>
      have hbytes : e.extraBytes ++ rest = enc16 0x40 ++ (enc16 x.toNat ++ rest) := by
        rw [Entry.extraBytes, hx, List.append_assoc]
      have hforty : be16 (e.extraBytes ++ rest) 0 = 0x40 := by
        rw [hbytes]
        exact be16_enc16 0x40 _
      have hval : be16 e.bytes (e.fieldPos + 2) = x.toNat := by
        have hb := be16_append (enc16 0x40) (enc16 x.toNat ++ rest) 0
        rw [be16_enc_uint16] at hb
        rw [be16_of_drop hdrop 2, hbytes]
        exact hb
      have hfits : e.fieldPos + 2 + 2 ≤ e.bytes.length := by
        rw [hlen]
        simp only [Entry.fieldPos, Entry.size, hx, Option.isSome_some, if_true]
        omega
      rw [hforty]
      simp only [takeField_none (show 0x40 &&& 0x0001 = 0 by decide),
        takeField_none (show 0x40 &&& 0x0002 = 0 by decide),
        takeField_none (show 0x40 &&& 0x0004 = 0 by decide),
        takeField_none (show 0x40 &&& 0x0008 = 0 by decide),
        takeField_none (show 0x40 &&& 0x0010 = 0 by decide),
        takeField_none (show 0x40 &&& 0x0020 = 0 by decide), Option.getD_none, Option.map_some,
        Option.getD_some]
      rw [DirEntry.takeField, if_pos ⟨by decide, hfits⟩, if_neg (by omega), hval]
      rfl

theorem ofRaw_bytes (e : Entry) : DirEntry.ofRaw e.bytes = e.toDirEntry := by
  have hat := entryAt_bytes e
  have hnlen : (e.bytes.getD 17 0).toNat = e.name.length := hat.nlen
  have hsize : (e.bytes.getD 0 0).toNat = e.size := hat.esize
  have htype : (e.bytes.getD 1 0).toNat = e.type.toNat := hat.type
  have hanode : be32 e.bytes 2 = e.anode.toNat := hat.anode
  have hfsize : be32 e.bytes 6 = e.fsize.toNat := hat.fsize
  have hday : be16 e.bytes 10 = e.day.toNat := hat.day
  have hminute : be16 e.bytes 12 = e.minute.toNat := hat.minute
  have htick : be16 e.bytes 14 = e.tick.toNat := hat.tick
  have hprot : (e.bytes.getD 16 0).toNat = e.protection.toNat := hat.protection
  have hname : (e.bytes.drop 18).take e.name.length = e.name := hat.name
  have hclen : e.bytes.getD (18 + e.name.length) 0 = 0 := by
    have h := hat.clen
    rwa [Nat.zero_add] at h
  have hcomment : (e.bytes.drop (18 + e.name.length + 1)).take (0 : UInt8).toNat = [] := by
    rw [UInt8.toNat_zero, List.take_zero]
  simp only [DirEntry.ofRaw, Entry.toDirEntry, Entry.entryType, Entry.text, hnlen, hsize, htype,
    hanode, hfsize, hday, hminute, htick, hprot, hname, hclen, hcomment, parseExtrafields_bytes]
  simp [latin1ToString]

theorem EntryAt.parse {data : Bytes} {pos : ℕ} {e : Entry} (h : EntryAt data pos e) :
    DirEntry.parse data pos = some (e.toDirEntry, pos + e.size) := by
  have hle := h.le_length
  have hname := e.name_lt_size
  unfold DirEntry.parse
  rw [if_neg (by omega)]
  simp only [h.esize]
  rw [if_neg (by omega), if_neg (by omega), h.take, ofRaw_bytes]

/-! ## Walking over the entries -/

/-- Bytes taken by entries. -/
def entriesSize (es : List Entry) : ℕ := (es.map Entry.size).sum

@[simp] theorem entriesSize_nil : entriesSize [] = 0 := rfl

@[simp] theorem entriesSize_cons (e : Entry) (es : List Entry) :
    entriesSize (e :: es) = e.size + entriesSize es := by
  simp [entriesSize]

@[simp] theorem entriesSize_append (es fs : List Entry) :
    entriesSize (es ++ fs) = entriesSize es + entriesSize fs := by
  simp [entriesSize]

theorem length_entries (es : List Entry) : (es.flatMap Entry.bytes).length = entriesSize es := by
  simp [entriesSize, List.length_flatMap]

theorem even_entriesSize (es : List Entry) : entriesSize es % 2 = 0 := by
  induction es with
  | nil => rfl
  | cons e es ih =>
      have he : e.size % 2 = 0 := Nat.mul_mod_left _ _
      rw [entriesSize_cons]
      omega

theorem length_le_entriesSize (es : List Entry) : es.length * 18 ≤ entriesSize es := by
  induction es with
  | nil => exact le_rfl
  | cons e es ih =>
      have he := e.name_lt_size
      rw [entriesSize_cons, List.length_cons]
      omega

/-- From `pos` on there are the entries `es` and then `n` zeros. -/
def EntriesAt (data : Bytes) (pos : ℕ) (es : List Entry) (n : ℕ) : Prop :=
  data.drop pos = es.flatMap Entry.bytes ++ List.replicate n 0

namespace EntriesAt

variable {data : Bytes} {pos n : ℕ} {e : Entry} {es : List Entry}

theorem head (h : EntriesAt data pos (e :: es) n) : EntryAt data pos e :=
  ⟨es.flatMap Entry.bytes ++ List.replicate n 0, by
    rw [h, List.flatMap_cons, List.append_assoc]⟩

theorem tail (h : EntriesAt data pos (e :: es) n) : EntriesAt data (pos + e.size) es n := by
  unfold EntriesAt at h ⊢
  rw [← List.drop_drop, h, List.flatMap_cons, List.append_assoc]
  exact List.drop_left' e.length_bytes

theorem lt_length (h : EntriesAt data pos [] n) (hn : 0 < n) : pos < data.length := by
  have hlen := congrArg List.length h
  simp only [List.length_drop, List.flatMap_nil, List.nil_append, List.length_replicate] at hlen
  omega

theorem stop (h : EntriesAt data pos [] n) (hn : 0 < n) : (data.getD pos 0).toNat = 0 := by
  obtain ⟨m, rfl⟩ : ∃ m, n = m + 1 := ⟨n - 1, by omega⟩
  have hd := getD_of_drop h 0
  rw [Nat.add_zero] at hd
  rw [hd]
  rfl

/-- Listing a block. -/
theorem parse (hn : 0 < n) : ∀ {k : ℕ}, es.length < k → EntriesAt data pos es n →
    parseDirblockEntries data k pos = es.map Entry.toDirEntry := by
  induction es generalizing pos with
  | nil =>
      intro fuel hfuel h
      obtain ⟨fuel, rfl⟩ : ∃ k, fuel = k + 1 := ⟨fuel - 1, by simp at hfuel; omega⟩
      have hlt := h.lt_length hn
      have hstop := h.stop hn
      rw [parseDirblockEntries, if_neg (by omega), DirEntry.parse, if_neg (by omega)]
      simp only [hstop, if_true, List.map_nil]
  | cons e es ih =>
      intro fuel hfuel h
      obtain ⟨fuel, rfl⟩ : ∃ k, fuel = k + 1 := ⟨fuel - 1, by simp at hfuel; omega⟩
      have hle := h.head.le_length
      have hname := e.name_lt_size
      rw [parseDirblockEntries, if_neg (by omega), h.head.parse]
      simp only [List.map_cons]
      rw [ih (by simpa using hfuel) h.tail]

/-- The end of the entries. -/
theorem endOfEntries (hn : 0 < n) : ∀ {k : ℕ}, es.length < k → EntriesAt data pos es n →
    Writer.endOfEntries data.length data k pos = .ok (pos + entriesSize es) := by
  induction es generalizing pos with
  | nil =>
      intro fuel hfuel h
      obtain ⟨fuel, rfl⟩ : ∃ k, fuel = k + 1 := ⟨fuel - 1, by simp at hfuel; omega⟩
      have hlt := h.lt_length hn
      have hstop := h.stop hn
      rw [Writer.endOfEntries, if_neg (by omega), readU8_ok hlt, ok_bind, if_pos hstop]
      rfl
  | cons e es ih =>
      intro fuel hfuel h
      obtain ⟨fuel, rfl⟩ : ∃ k, fuel = k + 1 := ⟨fuel - 1, by simp at hfuel; omega⟩
      have hle := h.head.le_length
      have hname := e.name_lt_size
      rw [Writer.endOfEntries, if_neg (by omega), readU8_ok (by omega), ok_bind, h.head.esize,
        if_neg (by omega), ih (by simpa using hfuel) h.tail, entriesSize_cons, Nat.add_assoc]

/-- Finding a name. -/
theorem findInBlock (hn : 0 < n) (name : Name) : ∀ {k : ℕ}, es.length < k →
    EntriesAt data pos es n →
    Writer.findInBlock data.length data name k pos =
      .ok ((es.findIdx? fun e => nameEqCi e.text name).map fun i =>
        pos + entriesSize (es.take i)) := by
  induction es generalizing pos with
  | nil =>
      intro fuel hfuel h
      obtain ⟨fuel, rfl⟩ : ∃ k, fuel = k + 1 := ⟨fuel - 1, by simp at hfuel; omega⟩
      have hlt := h.lt_length hn
      have hstop := h.stop hn
      rw [Writer.findInBlock, if_neg (by omega), readU8_ok hlt, ok_bind, if_pos hstop]
      rfl
  | cons e es ih =>
      intro fuel hfuel h
      obtain ⟨fuel, rfl⟩ : ∃ k, fuel = k + 1 := ⟨fuel - 1, by simp at hfuel; omega⟩
      have hle := h.head.le_length
      have hname := e.name_lt_size
      rw [Writer.findInBlock, if_neg (by omega), readU8_ok (by omega), ok_bind, h.head.esize,
        if_neg (by omega), readU8_ok (by omega), ok_bind, h.head.nlen, if_neg (by omega),
        h.head.name, List.findIdx?_cons]
      by_cases hm : nameEqCi e.text name
      · have hm' : nameEqCi (latin1ToString e.name) name = true := hm
        rw [if_pos hm', if_pos hm]
        rfl
      · have hm' : ¬ nameEqCi (latin1ToString e.name) name = true := hm
        rw [if_neg hm', if_neg hm, ih (by simpa using hfuel) h.tail]
        cases es.findIdx? fun e => nameEqCi e.text name with
        | none => rfl
        | some i =>
            simp only [Option.map_some, List.take_succ_cons, entriesSize_cons, Nat.add_assoc]

end EntriesAt

/-! ## Directory blocks -/

/-- The twenty bytes before the entries. -/
def dirHeader (datestamp anodenr parent : ℕ) : Bytes :=
  header DBLKID datestamp ++ (enc32 0 ++ enc32 anodenr ++ enc32 parent)

/-- The bytes of a directory block. -/
def dirImage (datestamp : ℕ) (d : DirBlock) : Bytes :=
  dirHeader datestamp d.anodenr d.parent ++ d.entries.flatMap Entry.bytes ++
    List.replicate (1004 - d.size) 0

/-- The entries and an end marker fit. -/
def DirBlock.Fits (d : DirBlock) : Prop := d.size < 1004

@[simp] theorem length_dirHeader (ds a p : ℕ) : (dirHeader ds a p).length = 20 := rfl

theorem dirBlock_size (d : DirBlock) : d.size = entriesSize d.entries := rfl

theorem length_dirImage {ds : ℕ} {d : DirBlock} (h : d.Fits) : (dirImage ds d).length = 1024 := by
  unfold DirBlock.Fits at h
  rw [dirImage, List.length_append, List.length_append, length_entries, length_dirHeader,
    List.length_replicate, ← dirBlock_size]
  omega

theorem be16_dirImage (ds : ℕ) (d : DirBlock) : be16 (dirImage ds d) 0 = DBLKID := by
  rw [dirImage, dirHeader, List.append_assoc, List.append_assoc]
  exact be16_header (by decide) _ _

/-- The header of a directory block. -/
theorem parse_dirImage (ds : ℕ) (d : DirBlock) :
    DirBlockHeader.parse (dirImage ds d) =
      .ok ⟨DBLKID, ds % 2 ^ 32, d.anodenr % 2 ^ 32, d.parent % 2 ^ 32⟩ := by
  have hlen : ¬ (dirImage ds d).length < 0x14 := by
    rw [dirImage, List.length_append, List.length_append, length_dirHeader]
    omega
  have hid := be16_dirImage ds d
  have hfield : ∀ (a rest : Bytes) (v : ℕ), be32 (a ++ (enc32 v ++ rest)) (a.length + 0) =
      v % 2 ^ 32 := fun a rest v => (be32_append _ _ _).trans (be32_enc32 v rest)
  have hds : be32 (dirImage ds d) 4 = ds % 2 ^ 32 := by
    rw [dirImage, dirHeader, header, List.append_assoc, List.append_assoc, List.append_assoc]
    exact hfield (enc16 DBLKID ++ enc16 0) _ ds
  have hanode : be32 (dirImage ds d) 0x0C = d.anodenr % 2 ^ 32 := by
    rw [dirImage, dirHeader, List.append_assoc, List.append_assoc, List.append_assoc,
      List.append_assoc, ← List.append_assoc]
    exact hfield (header DBLKID ds ++ enc32 0) _ d.anodenr
  have hparent : be32 (dirImage ds d) 0x10 = d.parent % 2 ^ 32 := by
    rw [dirImage, dirHeader, List.append_assoc, ← List.append_assoc (header DBLKID ds),
      List.append_assoc]
    exact hfield (header DBLKID ds ++ (enc32 0 ++ enc32 d.anodenr)) _ d.parent
  unfold DirBlockHeader.parse
  rw [if_neg hlen, if_neg (by rw [hid]; exact fun h => h rfl), hid, hds, hanode, hparent]

theorem entriesAt_dirImage (ds : ℕ) (d : DirBlock) :
    EntriesAt (dirImage ds d) 20 d.entries (1004 - d.size) := by
  unfold EntriesAt
  rw [dirImage, List.append_assoc]
  exact List.drop_left' rfl

theorem length_entries_lt {d : DirBlock} (h : d.Fits) : d.entries.length < 1004 := by
  have hle := length_le_entriesSize d.entries
  unfold DirBlock.Fits at h
  rw [dirBlock_size] at h
  omega

theorem dirblockEntries_dirImage {ds : ℕ} {d : DirBlock} (h : d.Fits) :
    dirblockEntries (dirImage ds d) = d.entries.map Entry.toDirEntry := by
  have hlen : (dirImage ds d).length = 1024 := length_dirImage h
  have hfuel := length_entries_lt h
  have hz : 0 < 1004 - d.size := Nat.sub_pos_of_lt h
  have hhead : DIR_BLOCK_HEADER_SIZE = 20 := rfl
  rw [dirblockEntries, if_neg (by omega), if_neg (by rw [be16_dirImage]; exact fun h => h rfl)]
  exact (entriesAt_dirImage ds d).parse hz (by omega)

theorem endOfEntries_dirImage {ds : ℕ} {d : DirBlock} (h : d.Fits) :
    Writer.endOfEntries 1024 (dirImage ds d) 1024 DIR_BLOCK_HEADER_SIZE = .ok (20 + d.size) := by
  have hfuel := length_entries_lt h
  have hz : 0 < 1004 - d.size := Nat.sub_pos_of_lt h
  have hend := (entriesAt_dirImage ds d).endOfEntries hz (k := 1024) (by omega)
  rw [length_dirImage h] at hend
  exact hend

theorem findInBlock_dirImage {ds : ℕ} {d : DirBlock} (h : d.Fits) (name : Name) :
    Writer.findInBlock 1024 (dirImage ds d) name 1024 DIR_BLOCK_HEADER_SIZE =
      .ok ((d.entries.findIdx? fun e => nameEqCi e.text name).map fun i =>
        20 + entriesSize (d.entries.take i)) := by
  have hfuel := length_entries_lt h
  have hz : 0 < 1004 - d.size := Nat.sub_pos_of_lt h
  have hfind := (entriesAt_dirImage ds d).findInBlock hz name (k := 1024) (by omega)
  rw [length_dirImage h] at hfind
  exact hfind

theorem stamp_dirImage (ds ds' : ℕ) (d : DirBlock) :
    putU32 (dirImage ds d) 4 ds' = .ok (dirImage ds' d) := by
  rw [dirImage, dirHeader, List.append_assoc, List.append_assoc, putU32_stamp]
  simp only [dirImage, dirHeader, List.append_assoc]

/-! ### Updates -/

/-- An empty directory block. -/
theorem fresh_dirImage (ds anodenr parent : ℕ) :
    (do
      let data ← putU16 (List.replicate 1024 0) 0 DBLKID
      let data ← putU32 data 4 ds
      let data ← putU32 data 0x0C anodenr
      putU32 data 0x10 parent) =
      (.ok (dirImage ds ⟨anodenr, parent, []⟩) : Except Fault Bytes) := by
  have hlen : (List.replicate 1004 0 : Bytes).length = 1004 := List.length_replicate
  have hzero : (List.replicate 1024 0 : Bytes) =
      enc16 0 ++ (enc16 0 ++ enc32 0) ++ (enc32 0 ++ (enc32 0 ++ (enc32 0 ++
        List.replicate 1004 0))) := by
    rw [replicate_split (n := 1024) (k := 20) (by omega)]
    rfl
  have hid : splice (List.replicate 1024 0) 0 (enc16 DBLKID) =
      header DBLKID 0 ++ (enc32 0 ++ (enc32 0 ++ (enc32 0 ++ List.replicate 1004 0))) := by
    have h := splice_part (a := []) (b := enc16 0) (c := enc16 0 ++ enc32 0 ++
      (enc32 0 ++ (enc32 0 ++ (enc32 0 ++ List.replicate 1004 0)))) (x := enc16 DBLKID) rfl
    rw [hzero]
    simpa only [header, List.length_nil, List.nil_append, List.append_assoc] using h
  have hanode : splice (header DBLKID ds ++ (enc32 0 ++ (enc32 0 ++ (enc32 0 ++
      List.replicate 1004 0)))) 0x0C (enc32 anodenr) =
      header DBLKID ds ++ enc32 0 ++ (enc32 anodenr ++ (enc32 0 ++ List.replicate 1004 0)) := by
    have h := splice_part (a := header DBLKID ds ++ enc32 0) (b := enc32 0)
      (c := enc32 0 ++ List.replicate 1004 0) (x := enc32 anodenr) rfl
    simp only [List.append_assoc] at h ⊢
    exact h
  have hparent : splice (header DBLKID ds ++ enc32 0 ++ (enc32 anodenr ++ (enc32 0 ++
      List.replicate 1004 0))) 0x10 (enc32 parent) =
      header DBLKID ds ++ enc32 0 ++ enc32 anodenr ++ enc32 parent ++ List.replicate 1004 0 := by
    have h := splice_part (a := header DBLKID ds ++ enc32 0 ++ enc32 anodenr) (b := enc32 0)
      (c := List.replicate 1004 0) (x := enc32 parent) rfl
    simp only [List.append_assoc] at h ⊢
    exact h
  rw [putU16_ok (by rw [List.length_replicate]; omega), ok_bind, hid, putU32_stamp, ok_bind,
    putU32_ok (by simp only [List.length_append, hlen, length_header, length_enc32]; omega),
    ok_bind, hanode,
    putU32_ok (by simp only [List.length_append, hlen, length_header, length_enc32]; omega),
    hparent, dirImage, dirHeader]
  simp only [List.flatMap_nil, List.append_nil, List.append_assoc]
  rfl

theorem size_append (d : DirBlock) (e : Entry) :
    DirBlock.size { d with entries := d.entries ++ [e] } = d.size + e.size := by
  rw [dirBlock_size, entriesSize_append, entriesSize_cons, entriesSize_nil, ← dirBlock_size]
  rfl

/-- The entries of a block end where its free space begins. -/
theorem length_used (ds : ℕ) (d : DirBlock) :
    (dirHeader ds d.anodenr d.parent ++ d.entries.flatMap Entry.bytes).length = 20 + d.size := by
  rw [List.length_append, length_entries, length_dirHeader, dirBlock_size]

/-- Adding an entry behind the others. -/
theorem place_dirImage {ds : ℕ} {d : DirBlock} {e : Entry} (h : 20 + d.size + e.size < 1024) :
    putBytes (dirImage ds d) (20 + d.size) e.bytes =
      .ok (dirImage ds { d with entries := d.entries ++ [e] }) := by
  have hk : 1004 - d.size = e.size + (1004 - (d.size + e.size)) := by omega
  have hlen : (dirImage ds d).length = 1024 :=
    length_dirImage (show d.Fits by unfold DirBlock.Fits; omega)
  have himage : dirImage ds d = dirHeader ds d.anodenr d.parent ++ d.entries.flatMap Entry.bytes ++
      List.replicate e.size 0 ++ List.replicate (1004 - (d.size + e.size)) 0 := by
    rw [dirImage, hk, ← List.replicate_append_replicate]
    simp only [List.append_assoc]
  rw [putBytes_ok (by rw [hlen, Entry.length_bytes]; omega), himage, ← length_used ds d,
    splice_part (by rw [List.length_replicate, Entry.length_bytes]), dirImage, size_append,
    List.flatMap_append]
  simp only [List.flatMap_cons, List.flatMap_nil, List.append_nil, List.append_assoc]

/-- The end marker is there already. -/
theorem mark_dirImage {ds : ℕ} {d : DirBlock} (h : d.Fits) :
    putBytes (dirImage ds d) (20 + d.size) [0] = .ok (dirImage ds d) := by
  unfold DirBlock.Fits at h
  have hk : 1004 - d.size = 1 + (1003 - d.size) := by omega
  have himage : dirImage ds d = dirHeader ds d.anodenr d.parent ++ d.entries.flatMap Entry.bytes ++
      [0] ++ List.replicate (1003 - d.size) 0 := by
    rw [dirImage, hk, ← List.replicate_append_replicate]
    simp only [List.append_assoc, List.replicate_one]
  rw [putBytes_ok (by rw [length_dirImage h, List.length_singleton]; omega), himage,
    ← length_used ds d, splice_part rfl]

/-- The block around its `i`-th entry. -/
theorem dirImage_split {ds : ℕ} {d : DirBlock} {i : ℕ} {e : Entry} (he : d.entries[i]? = some e) :
    dirImage ds d = (dirHeader ds d.anodenr d.parent ++ (d.entries.take i).flatMap Entry.bytes) ++
      e.bytes ++ ((d.entries.drop (i + 1)).flatMap Entry.bytes ++
        List.replicate (1004 - d.size) 0) := by
  obtain ⟨hi, rfl⟩ := List.getElem?_eq_some_iff.mp he
  have hsplit : d.entries = d.entries.take i ++ d.entries[i] :: d.entries.drop (i + 1) := by
    rw [List.getElem_cons_drop, List.take_append_drop]
  have hflat : d.entries.flatMap Entry.bytes = (d.entries.take i).flatMap Entry.bytes ++
      (d.entries[i].bytes ++ (d.entries.drop (i + 1)).flatMap Entry.bytes) := by
    conv_lhs => rw [hsplit]
    rw [List.flatMap_append, List.flatMap_cons]
  rw [dirImage, hflat]
  simp only [List.append_assoc]

theorem length_before (ds a p : ℕ) (es : List Entry) :
    (dirHeader ds a p ++ es.flatMap Entry.bytes).length = 20 + entriesSize es := by
  rw [List.length_append, length_entries, length_dirHeader]

theorem entryAt_dirImage {ds : ℕ} {d : DirBlock} {i : ℕ} {e : Entry} (he : d.entries[i]? = some e) :
    EntryAt (dirImage ds d) (20 + entriesSize (d.entries.take i)) e := by
  refine ⟨(d.entries.drop (i + 1)).flatMap Entry.bytes ++ List.replicate (1004 - d.size) 0, ?_⟩
  rw [dirImage_split he, List.append_assoc, ← length_before ds d.anodenr d.parent]
  exact List.drop_left

theorem size_split {d : DirBlock} {i : ℕ} {e : Entry} (he : d.entries[i]? = some e) :
    d.size = entriesSize (d.entries.take i) + e.size + entriesSize (d.entries.drop (i + 1)) := by
  obtain ⟨hi, rfl⟩ := List.getElem?_eq_some_iff.mp he
  have hsplit : d.entries = d.entries.take i ++ d.entries[i] :: d.entries.drop (i + 1) := by
    rw [List.getElem_cons_drop, List.take_append_drop]
  rw [dirBlock_size]
  conv_lhs => rw [hsplit]
  rw [entriesSize_append, entriesSize_cons, Nat.add_assoc]

/-- Removing an entry: the entries behind it move up. -/
theorem erase_dirImage {ds : ℕ} {d : DirBlock} {i : ℕ} {e : Entry} (hfit : d.Fits)
    (he : d.entries[i]? = some e) :
    (dirImage ds d).take (20 + entriesSize (d.entries.take i)) ++
        ((dirImage ds d).drop (20 + entriesSize (d.entries.take i) + e.size)).take
          (1024 - (20 + entriesSize (d.entries.take i) + e.size)) ++
        List.replicate e.size 0 ++
        (dirImage ds d).drop (20 + entriesSize (d.entries.take i) +
          (1024 - (20 + entriesSize (d.entries.take i) + e.size)) + e.size) =
      dirImage ds { d with entries := d.entries.eraseIdx i } := by
  have hlen : (dirImage ds d).length = 1024 := length_dirImage hfit
  have hle := (@entryAt_dirImage ds d i e he).le_length
  have hsize := size_split he
  unfold DirBlock.Fits at hfit
  have hend : (dirImage ds d).drop (20 + entriesSize (d.entries.take i) +
      (1024 - (20 + entriesSize (d.entries.take i) + e.size)) + e.size) = [] :=
    List.drop_eq_nil_of_le (by omega)
  have hrest : (dirImage ds d).drop (20 + entriesSize (d.entries.take i) + e.size) =
      (d.entries.drop (i + 1)).flatMap Entry.bytes ++ List.replicate (1004 - d.size) 0 := by
    rw [dirImage_split he, ← length_before ds d.anodenr d.parent, ← Entry.length_bytes,
      ← List.length_append]
    exact List.drop_left
  have htake : (dirImage ds d).take (20 + entriesSize (d.entries.take i)) =
      dirHeader ds d.anodenr d.parent ++ (d.entries.take i).flatMap Entry.bytes := by
    rw [dirImage_split he, ← length_before ds d.anodenr d.parent, List.append_assoc]
    exact List.take_left
  have hwhole : ((dirImage ds d).drop (20 + entriesSize (d.entries.take i) + e.size)).take
      (1024 - (20 + entriesSize (d.entries.take i) + e.size)) =
      (d.entries.drop (i + 1)).flatMap Entry.bytes ++ List.replicate (1004 - d.size) 0 := by
    rw [List.take_of_length_le (by rw [List.length_drop]; omega), hrest]
  have hnew : DirBlock.size { d with entries := d.entries.eraseIdx i } = d.size - e.size := by
    rw [dirBlock_size, List.eraseIdx_eq_take_drop_succ, entriesSize_append, hsize]
    omega
  rw [hend, htake, hwhole, dirImage, hnew, List.eraseIdx_eq_take_drop_succ, List.flatMap_append,
    show 1004 - (d.size - e.size) = (1004 - d.size) + e.size by omega,
    ← List.replicate_append_replicate]
  simp only [List.append_assoc, List.append_nil]

/-! ### Changing fields of an entry -/

/-- The block with `e` as its `i`-th entry. -/
def DirBlock.withEntry (d : DirBlock) (i : ℕ) (e : Entry) : DirBlock :=
  { d with entries := d.entries.modify i fun _ => e }

section Fields

variable {ds i : ℕ} {d : DirBlock} {e₀ e : Entry}

theorem withEntry_self (he : d.entries[i]? = some e) : d.withEntry i e = d := by
  have hmod : d.entries.modify i (fun _ => e) = d.entries := by
    apply List.ext_getElem?
    intro j
    rw [List.getElem?_modify]
    by_cases hij : i = j
    · subst hij
      rw [he]
      simp
    · simp [hij]
  rw [DirBlock.withEntry, hmod]

theorem withEntry_split (he : d.entries[i]? = some e₀) (hsize : e.size = e₀.size) :
    dirImage ds (d.withEntry i e) =
      (dirHeader ds d.anodenr d.parent ++ (d.entries.take i).flatMap Entry.bytes) ++
        e.bytes ++ ((d.entries.drop (i + 1)).flatMap Entry.bytes ++
          List.replicate (1004 - d.size) 0) := by
  obtain ⟨hi, -⟩ := List.getElem?_eq_some_iff.mp he
  have hmod : d.entries.modify i (fun _ => e) =
      d.entries.take i ++ e :: d.entries.drop (i + 1) := by
    rw [List.modify_eq_take_cons_drop hi]
  have hsame : DirBlock.size { d with entries := d.entries.modify i fun _ => e } = d.size := by
    rw [dirBlock_size, hmod, entriesSize_append, entriesSize_cons, size_split he, hsize,
      Nat.add_assoc]
  rw [DirBlock.withEntry, dirImage, hsame, hmod, List.flatMap_append, List.flatMap_cons]
  simp only [List.append_assoc]

theorem entryAt_withEntry (ds : ℕ) (e : Entry) (he : d.entries[i]? = some e₀) (hsize : e.size = e₀.size) :
    EntryAt (dirImage ds (d.withEntry i e)) (20 + entriesSize (d.entries.take i)) e := by
  refine ⟨(d.entries.drop (i + 1)).flatMap Entry.bytes ++ List.replicate (1004 - d.size) 0, ?_⟩
  rw [withEntry_split he hsize, List.append_assoc, ← length_before ds d.anodenr d.parent]
  exact List.drop_left

/-- Writing into an entry of the block. -/
theorem putField (ds : ℕ) (e e' : Entry) {o : ℕ} {x : Bytes} (he : d.entries[i]? = some e₀) (hsize : e.size = e₀.size)
    (hsize' : e'.size = e.size) (hoff : o + x.length ≤ e.size)
    (hsplice : splice e.bytes o x = e'.bytes) :
    putBytes (dirImage ds (d.withEntry i e)) (20 + entriesSize (d.entries.take i) + o) x =
      .ok (dirImage ds (d.withEntry i e')) := by
  have hle := (entryAt_withEntry ds e he hsize).le_length
  rw [putBytes_ok (by omega), withEntry_split he hsize, withEntry_split he (hsize'.trans hsize),
    ← length_before ds d.anodenr d.parent,
    splice_middle (by rw [Entry.length_bytes]; exact hoff), hsplice]

end Fields

namespace Entry

theorem splice_fsize (e : Entry) (n : ℕ) :
    splice e.bytes 6 (enc32 n) = ({ e with fsize := UInt32.ofNat n } : Entry).bytes := by
  have h := splice_part (a := e.front) (b := enc32 e.fsize.toNat)
    (c := e.dateBytes ++ (e.nameBytes ++ e.extraBytes)) (x := enc32 n) rfl
  rw [bytes, bytes]
  simp only [UInt32.toNat_ofNat', enc32_mod]
  simp only [List.append_assoc] at h ⊢
  exact h

theorem splice_day (e : Entry) (n : ℕ) :
    splice e.bytes 10 (enc16 n) = ({ e with day := UInt16.ofNat n } : Entry).bytes := by
  have h := splice_part (a := e.front ++ enc32 e.fsize.toNat) (b := enc16 e.day.toNat)
    (c := enc16 e.minute.toNat ++ (enc16 e.tick.toNat ++ (e.nameBytes ++ e.extraBytes)))
    (x := enc16 n) rfl
  rw [bytes, bytes, dateBytes, dateBytes]
  simp only [UInt16.toNat_ofNat', enc16_mod]
  simp only [List.append_assoc] at h ⊢
  exact h

theorem splice_minute (e : Entry) (n : ℕ) :
    splice e.bytes 12 (enc16 n) = ({ e with minute := UInt16.ofNat n } : Entry).bytes := by
  have h := splice_part (a := e.front ++ enc32 e.fsize.toNat ++ enc16 e.day.toNat)
    (b := enc16 e.minute.toNat) (c := enc16 e.tick.toNat ++ (e.nameBytes ++ e.extraBytes))
    (x := enc16 n) rfl
  rw [bytes, bytes, dateBytes, dateBytes]
  simp only [UInt16.toNat_ofNat', enc16_mod]
  simp only [List.append_assoc] at h ⊢
  exact h

theorem splice_tick (e : Entry) (n : ℕ) :
    splice e.bytes 14 (enc16 n) = ({ e with tick := UInt16.ofNat n } : Entry).bytes := by
  have h := splice_part (a := e.front ++ enc32 e.fsize.toNat ++ enc16 e.day.toNat ++
    enc16 e.minute.toNat) (b := enc16 e.tick.toNat) (c := e.nameBytes ++ e.extraBytes)
    (x := enc16 n) rfl
  rw [bytes, bytes, dateBytes, dateBytes]
  simp only [UInt16.toNat_ofNat', enc16_mod]
  simp only [List.append_assoc] at h ⊢
  exact h

theorem splice_protection (e : Entry) (protection : UInt8) :
    splice e.bytes 16 [protection] = ({ e with protection } : Entry).bytes := by
  have h := splice_part (a := e.front ++ enc32 e.fsize.toNat ++ e.dateBytes) (b := [e.protection])
    (c := [UInt8.ofNat e.name.length] ++ e.name ++
      List.replicate (if (18 + e.name.length + 1) % 2 ≠ 0 then 2 else 1) 0 ++ e.extraBytes)
    (x := [protection]) rfl
  rw [bytes, bytes, nameBytes, nameBytes]
  simp only [List.append_assoc, List.cons_append, List.nil_append] at h ⊢
  exact h

theorem splice_fsizex (e : Entry) {x : UInt16} (hx : e.fsizex = some x) (n : ℕ) :
    splice e.bytes (e.fieldPos + 2) (enc16 n) =
      ({ e with fsizex := some (UInt16.ofNat n) } : Entry).bytes := by
  have h := splice_part (a := e.front ++ enc32 e.fsize.toNat ++ e.dateBytes ++ e.nameBytes ++
    enc16 0x40) (b := enc16 x.toNat) (c := []) (x := enc16 n) rfl
  have hlen := e.length_nameBytes
  have hpos : (e.front ++ enc32 e.fsize.toNat ++ e.dateBytes ++ e.nameBytes ++
      enc16 0x40).length = e.fieldPos + 2 := by
    simp only [List.length_append, length_front, length_enc32, length_dateBytes, length_enc16]
    omega
  have hbytes : e.bytes = e.front ++ enc32 e.fsize.toNat ++ e.dateBytes ++ e.nameBytes ++
      enc16 0x40 ++ enc16 x.toNat := by
    simp only [bytes, extraBytes, hx, List.append_assoc]
  have hnew : ({ e with fsizex := some (UInt16.ofNat n) } : Entry).bytes = e.front ++
      enc32 e.fsize.toNat ++ e.dateBytes ++ e.nameBytes ++ enc16 0x40 ++ enc16 n := by
    simp only [bytes, extraBytes, nameBytes, dateBytes, front, size, hx, Option.isSome_some,
      UInt16.toNat_ofNat', enc16_mod, List.append_assoc]
  rw [hpos, List.append_nil, List.append_nil] at h
  rw [hbytes, hnew, h]

end Entry

/-- Where `update_dir_entry_size` finds the `fsizex` field. -/
theorem EntryAt.fsizexPos {data : Bytes} {pos : ℕ} {e : Entry} (h : EntryAt data pos e)
    (heven : pos % 2 = 0) :
    Writer.fsizexPos data pos e.size e.name.length =
      .ok (if e.fsizex.isSome then some (pos + (e.fieldPos + 2)) else none) := by
  have hle := h.le_length
  have hname := e.name_lt_size
  have hfield := e.fieldPos_lt
  have hclen := h.clen
  have hfp : (if (pos + 18 + e.name.length + 1 + 0) % 2 ≠ 0
      then pos + 18 + e.name.length + 1 + 0 + 1 else pos + 18 + e.name.length + 1 + 0) =
      pos + e.fieldPos := by
    simp only [Entry.fieldPos]
    split <;> omega
  obtain ⟨rest, hdrop⟩ := h.drop_fieldPos
  have hflags := be16_of_drop hdrop 0
  rw [Nat.add_zero] at hflags
  unfold Writer.fsizexPos
  simp only []
  rw [if_pos (by omega), readU8_ok (by omega), ok_bind]
  simp only [hclen, UInt8.toNat_zero, hfp]
  rw [if_pos (by omega), readU16_ok (by omega), ok_bind, hflags]
  cases hx : e.fsizex with
  | none =>
      have hzero : be16 (e.extraBytes ++ rest) 0 = 0 := by
        rw [Entry.extraBytes, hx]
        exact be16_enc16 0 rest
      rw [hzero]
      simp [Writer.fsizexPos.skip, pure, Except.pure]
  | some x =>
      have hforty : be16 (e.extraBytes ++ rest) 0 = 0x40 := by
        rw [Entry.extraBytes, hx, List.append_assoc]
        exact be16_enc16 0x40 _
      have hfits : pos + e.fieldPos + 2 + 2 ≤ pos + e.size := by
        simp only [Entry.fieldPos, Entry.size, hx, Option.isSome_some, if_true]
        omega
      rw [hforty]
      have hskip : Writer.fsizexPos.skip (pos + e.size) 0x40 [(0x0001, 4), (0x0002, 2),
          (0x0004, 2), (0x0008, 4), (0x0010, 4), (0x0020, 4)] (pos + e.fieldPos + 2) =
          some (pos + e.fieldPos + 2) := by
        simp [Writer.fsizexPos.skip, hfits]
      rw [hskip]
      rfl

end Pfs3
