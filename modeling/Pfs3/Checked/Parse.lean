import Pfs3.Store.Image
import Pfs3.Walk.Readers

/-!
# The parsers with their checks

The parsers of `ondisk/` step by step, with every index, slice, conversion and addition that
could panic spelled out.  None of them does: each parser returns what its unchecked form returns.
-/

namespace Pfs3

open ByteList

/-- `2^64`: values of the code's `u64` and `usize` stay below it. -/
def U64 : ℕ := 18446744073709551616

/-! ## Checked access -/

/-- `a + b` on `u64`. -/
def addU64 (a b : ℕ) : Except Fault ℕ := if a + b < U64 then .ok (a + b) else .error .panic

/-- `a * b` on `u64`. -/
def mulU64 (a b : ℕ) : Except Fault ℕ := if a * b < U64 then .ok (a * b) else .error .panic

/-- `a * b` on `u32`. -/
def mulU32 (a b : ℕ) : Except Fault ℕ := if a * b < U32 then .ok (a * b) else .error .panic

/-- `a / b`. -/
def divide (a b : ℕ) : Except Fault ℕ := if b = 0 then .error .panic else .ok (a / b)

/-- `a % b`. -/
def remainder (a b : ℕ) : Except Fault ℕ := if b = 0 then .error .panic else .ok (a % b)

/-- `data[a..b]`. -/
def slice (d : Bytes) (a b : ℕ) : Except Fault Bytes :=
  if a ≤ b ∧ b ≤ d.length then .ok ((d.drop a).take (b - a)) else .error .panic

/-- `c.read_u32::<BigEndian>()?` on a cursor that stands at `off`. -/
def cursorU32 (d : Bytes) (off : ℕ) : Except Fault ℕ :=
  if off + 4 ≤ d.length then .ok (be32 d off) else .error (.err .io)

/-- `c.read_u16::<BigEndian>()?` on a cursor that stands at `off`. -/
def cursorU16 (d : Bytes) (off : ℕ) : Except Fault ℕ :=
  if off + 2 ≤ d.length then .ok (be16 d off) else .error (.err .io)

section Access

variable {d : Bytes} {a b off : ℕ}

theorem addU64_ok (h : a + b < U64) : addU64 a b = .ok (a + b) := if_pos h

theorem mulU64_ok (h : a * b < U64) : mulU64 a b = .ok (a * b) := if_pos h

theorem mulU32_ok (h : a * b < U32) : mulU32 a b = .ok (a * b) := if_pos h

theorem addU32_ok (h : a + b < U32) : addU32 a b = .ok (a + b) := if_pos h

theorem subU32_ok (h : b ≤ a) : subU32 a b = .ok (a - b) := if_pos h

theorem divide_ok (h : b ≠ 0) : divide a b = .ok (a / b) := if_neg h

theorem remainder_ok (h : b ≠ 0) : remainder a b = .ok (a % b) := if_neg h

theorem slice_ok (h : a ≤ b) (hb : b ≤ d.length) :
    slice d a b = .ok ((d.drop a).take (b - a)) := if_pos ⟨h, hb⟩

theorem cursorU32_ok (h : off + 4 ≤ d.length) : cursorU32 d off = .ok (be32 d off) := if_pos h

end Access

namespace Checked

/-! ## Directory entries -/

/-- `if flags & flag != 0 && pos + width <= raw.len() { .. pos += width }`. -/
def takeField (raw : Bytes) (flags flag width pos : ℕ) : Except Fault (Option ℕ × ℕ) := do
  let fieldEnd ← addU64 pos width
  if flags &&& flag ≠ 0 ∧ fieldEnd ≤ raw.length then do
    let value ← (if width = 4 then readU32 raw pos else readU16 raw pos)
    pure (some value, fieldEnd)
  else pure (none, pos)

def parseExtrafields (raw : Bytes) (nlength : ℕ) : Except Fault ExtraFields := do
  let nameEnd ← addU64 18 nlength
  if raw.length ≤ nameEnd then pure {}
  else do
    let clen ← readU8 raw nameEnd
    let commentStart ← addU64 nameEnd 1
    let start ← addU64 commentStart clen
    let fieldStart ← (if start % 2 ≠ 0 then addU64 start 1 else pure start)
    let flagsEnd ← addU64 fieldStart 2
    if raw.length < flagsEnd then pure {}
    else do
      let flags ← readU16 raw fieldStart
      let (link, pos) ← takeField raw flags 0x0001 4 flagsEnd
      let (uid, pos) ← takeField raw flags 0x0002 2 pos
      let (gid, pos) ← takeField raw flags 0x0004 2 pos
      let (prot, pos) ← takeField raw flags 0x0008 4 pos
      let (virtualsize, pos) ← takeField raw flags 0x0010 4 pos
      let (rollpointer, pos) ← takeField raw flags 0x0020 4 pos
      let (fsizex, _) ← takeField raw flags 0x0040 2 pos
      pure
        { link := link.getD 0, uid := uid.getD 0, gid := gid.getD 0, prot := prot.getD 0,
          virtualsize := virtualsize.getD 0, rollpointer := rollpointer.getD 0,
          fsizex := fsizex.getD 0 }

/-- The comment behind a name of `nlength` bytes. -/
def parseComment (raw : Bytes) (nlength : ℕ) : Except Fault Name := do
  let commentOff ← addU64 18 nlength
  if commentOff < raw.length then do
    let clen ← readU8 raw commentOff
    let cstart ← addU64 commentOff 1
    let cend ← addU64 cstart clen
    if cend ≤ raw.length then do
      let comment ← slice raw cstart cend
      pure (latin1ToString comment)
    else pure []
  else pure []

/-- Parse one direntry from `data` at `offset`. -/
def parseDirEntry (data : Bytes) (offset : ℕ) : Except Fault (Option (DirEntry × ℕ)) := do
  if data.length ≤ offset then pure none
  else do
    let entrySize ← readU8 data offset
    if entrySize = 0 then pure none
    else do
      let next ← addU64 offset entrySize
      if data.length < next ∨ entrySize < 18 then pure none
      else do
        let raw ← slice data offset next
        let ty ← readU8 raw 1
        let anode ← readU32 raw 2
        let fsize ← readU32 raw 6
        let creationDay ← readU16 raw 10
        let creationMinute ← readU16 raw 12
        let creationTick ← readU16 raw 14
        let protection ← readU8 raw 16
        let nlength ← readU8 raw 17
        let nameEnd ← addU64 18 nlength
        let name ← slice raw 18 (min nameEnd raw.length)
        let comment ← parseComment raw nlength
        let extra ← parseExtrafields raw nlength
        pure (some
          ({ entrySize := entrySize
             entryType := if ty < 128 then (ty : ℤ) else (ty : ℤ) - 256
             anode := anode
             fsize := fsize
             creationDay := creationDay
             creationMinute := creationMinute
             creationTick := creationTick
             protection := protection
             name := latin1ToString name
             comment := comment
             extra := extra }, next))

theorem takeField_eq {raw : Bytes} {flags flag width pos : ℕ} (hw : width = 2 ∨ width = 4)
    (hpos : pos + width < U64) :
    takeField raw flags flag width pos = .ok (DirEntry.takeField raw flags flag width pos) := by
  unfold takeField DirEntry.takeField
  rw [addU64_ok hpos, ok_bind]
  split
  · rename_i hin
    rcases hw with rfl | rfl
    · rw [if_neg (by decide), if_neg (by decide), readU16_ok hin.2]
      rfl
    · rw [if_pos rfl, if_pos rfl, readU32_ok hin.2]
      rfl
  · rfl

/-- A field ends at most its width behind the last one. -/
theorem takeField_pos (raw : Bytes) (flags flag width pos : ℕ) :
    (DirEntry.takeField raw flags flag width pos).2 ≤ pos + width := by
  unfold DirEntry.takeField
  split
  · exact le_rfl
  · exact Nat.le_add_right pos width

theorem parseExtrafields_eq (raw : Bytes) {nlength : ℕ} (hn : nlength < 256) :
    parseExtrafields raw nlength = .ok (DirEntry.parseExtrafields raw nlength) := by
  have hU : U64 = 18446744073709551616 := rfl
  unfold parseExtrafields DirEntry.parseExtrafields
  rw [addU64_ok (by omega), ok_bind]
  dsimp only
  by_cases hname : raw.length ≤ 18 + nlength
  · rw [if_pos hname, if_pos hname]
    rfl
  · rw [if_neg hname, if_neg hname, readU8_ok (by omega), ok_bind]
    have hclen := (raw.getD (18 + nlength) 0).toNat_lt
    generalize (raw.getD (18 + nlength) 0).toNat = clen at hclen ⊢
    rw [addU64_ok (by omega), ok_bind, addU64_ok (by omega), ok_bind]
    have hstart : (if (18 + nlength + 1 + clen) % 2 ≠ 0 then addU64 (18 + nlength + 1 + clen) 1
        else pure (18 + nlength + 1 + clen)) = Except.ok
          (if (18 + nlength + 1 + clen) % 2 ≠ 0 then 18 + nlength + 1 + clen + 1
            else 18 + nlength + 1 + clen) := by
      split
      · exact addU64_ok (by omega)
      · rfl
    have hbound : (if (18 + nlength + 1 + clen) % 2 ≠ 0 then 18 + nlength + 1 + clen + 1
        else 18 + nlength + 1 + clen) < 1000 := by
      split
      · omega
      · omega
    rw [hstart, ok_bind]
    generalize (if (18 + nlength + 1 + clen) % 2 ≠ 0 then 18 + nlength + 1 + clen + 1
      else 18 + nlength + 1 + clen) = fieldStart at hbound ⊢
    rw [addU64_ok (by omega), ok_bind]
    by_cases hflags : raw.length < fieldStart + 2
    · rw [if_pos hflags, if_pos hflags]
      rfl
    · rw [if_neg hflags, if_neg hflags, readU16_ok (by omega), ok_bind]
      generalize be16 raw fieldStart = flags
      -- each field moves the position by at most its width
      have h₁ := takeField_pos raw flags 0x0001 4 (fieldStart + 2)
      rw [takeField_eq (Or.inr rfl) (by omega), ok_bind]
      generalize DirEntry.takeField raw flags 0x0001 4 (fieldStart + 2) = r₁ at h₁ ⊢
      have h₂ := takeField_pos raw flags 0x0002 2 r₁.2
      rw [takeField_eq (Or.inl rfl) (by omega), ok_bind]
      generalize DirEntry.takeField raw flags 0x0002 2 r₁.2 = r₂ at h₂ ⊢
      have h₃ := takeField_pos raw flags 0x0004 2 r₂.2
      rw [takeField_eq (Or.inl rfl) (by omega), ok_bind]
      generalize DirEntry.takeField raw flags 0x0004 2 r₂.2 = r₃ at h₃ ⊢
      have h₄ := takeField_pos raw flags 0x0008 4 r₃.2
      rw [takeField_eq (Or.inr rfl) (by omega), ok_bind]
      generalize DirEntry.takeField raw flags 0x0008 4 r₃.2 = r₄ at h₄ ⊢
      have h₅ := takeField_pos raw flags 0x0010 4 r₄.2
      rw [takeField_eq (Or.inr rfl) (by omega), ok_bind]
      generalize DirEntry.takeField raw flags 0x0010 4 r₄.2 = r₅ at h₅ ⊢
      have h₆ := takeField_pos raw flags 0x0020 4 r₅.2
      rw [takeField_eq (Or.inr rfl) (by omega), ok_bind]
      generalize DirEntry.takeField raw flags 0x0020 4 r₅.2 = r₆ at h₆ ⊢
      rw [takeField_eq (Or.inl rfl) (by omega), ok_bind]
      rfl

theorem parseComment_eq (raw : Bytes) {nlength : ℕ} (hn : nlength < 256) :
    parseComment raw nlength = .ok
      (if 18 + nlength < raw.length ∧
          18 + nlength + 1 + (raw.getD (18 + nlength) 0).toNat ≤ raw.length then
        latin1ToString ((raw.drop (18 + nlength + 1)).take (raw.getD (18 + nlength) 0).toNat)
      else []) := by
  have hU : U64 = 18446744073709551616 := rfl
  unfold parseComment
  rw [addU64_ok (by omega), ok_bind]
  by_cases hoff : 18 + nlength < raw.length
  · have hclen := (raw.getD (18 + nlength) 0).toNat_lt
    rw [if_pos hoff, readU8_ok hoff, ok_bind]
    generalize (raw.getD (18 + nlength) 0).toNat = clen at hclen ⊢
    rw [addU64_ok (by omega), ok_bind, addU64_ok (by omega), ok_bind]
    by_cases hend : 18 + nlength + 1 + clen ≤ raw.length
    · rw [if_pos hend, if_pos ⟨hoff, hend⟩, slice_ok (by omega) hend, ok_bind,
        Nat.add_sub_cancel_left]
      rfl
    · rw [if_neg hend, if_neg fun h => hend h.2]
      rfl
  · rw [if_neg hoff, if_neg fun h => hoff h.1]
    rfl

theorem parseDirEntry_eq {data : Bytes} (hdata : data.length < 2 ^ 16) (offset : ℕ) :
    parseDirEntry data offset = .ok (DirEntry.parse data offset) := by
  have hU : U64 = 18446744073709551616 := rfl
  unfold parseDirEntry DirEntry.parse
  by_cases hoff : data.length ≤ offset
  · rw [if_pos hoff, if_pos hoff]
    rfl
  · rw [if_neg hoff, if_neg hoff, readU8_ok (by omega), ok_bind]
    have hsize := (data.getD offset 0).toNat_lt
    dsimp only
    generalize hes : (data.getD offset 0).toNat = entrySize at hsize ⊢
    by_cases hzero : entrySize = 0
    · rw [if_pos hzero, if_pos hzero]
      rfl
    · rw [if_neg hzero, if_neg hzero, addU64_ok (by omega), ok_bind]
      by_cases hbad : data.length < offset + entrySize ∨ entrySize < 18
      · rw [if_pos hbad, if_pos hbad]
        rfl
      · have hlen : ((data.drop offset).take entrySize).length = entrySize := by
          rw [List.length_take, List.length_drop]
          omega
        have hfirst : (((data.drop offset).take entrySize).getD 0 0).toNat = entrySize := by
          rw [← hes, List.getD_eq_getElem?_getD, List.getElem?_take_of_lt (by omega),
            List.getElem?_drop, Nat.add_zero, List.getD_eq_getElem?_getD]
        rw [if_neg hbad, if_neg hbad, slice_ok (by omega) (by omega), ok_bind,
          Nat.add_sub_cancel_left]
        generalize (data.drop offset).take entrySize = raw at hlen hfirst ⊢
        have hn := (raw.getD 17 0).toNat_lt
        rw [readU8_ok (by omega), ok_bind, readU32_ok (by omega), ok_bind, readU32_ok (by omega),
          ok_bind, readU16_ok (by omega), ok_bind, readU16_ok (by omega), ok_bind,
          readU16_ok (by omega), ok_bind, readU8_ok (by omega), ok_bind, readU8_ok (by omega),
          ok_bind, addU64_ok (by omega), ok_bind, slice_ok (by omega) (min_le_right _ _), ok_bind,
          parseComment_eq raw hn, ok_bind, parseExtrafields_eq raw hn, ok_bind]
        have hname : (raw.drop 18).take (min (18 + (raw.getD 17 0).toNat) raw.length - 18) =
            (raw.drop 18).take (raw.getD 17 0).toNat := by
          rw [List.take_eq_take_iff, List.length_drop]
          omega
        rw [hname]
        unfold DirEntry.ofRaw
        dsimp only
        rw [hfirst]
        rfl

/-- The loop of `parse_dirblock_entries`, with `n` rounds left. -/
def parseDirblockEntries (data : Bytes) : (n : ℕ) → (offset : ℕ) → Except Fault (List DirEntry)
  | 0, offset => if data.length ≤ offset then pure [] else throw .panic
  | n + 1, offset => do
      if data.length ≤ offset then pure []
      else
        match ← parseDirEntry data offset with
        | some (entry, next) => do
            let entries ← parseDirblockEntries data n next
            pure (entry :: entries)
        | none => pure []

/-- The entries `list_entries` takes from one block. -/
def dirblockEntries (data : Bytes) : Except Fault (List DirEntry) := do
  if data.length < DIR_BLOCK_HEADER_SIZE + 1 then pure []
  else do
    let id ← readU16 data 0
    if id ≠ DBLKID then pure []
    else parseDirblockEntries data (data.length - DIR_BLOCK_HEADER_SIZE) DIR_BLOCK_HEADER_SIZE

/-- An entry is at least 18 bytes long. -/
theorem parse_next {data : Bytes} {offset next : ℕ} {e : DirEntry}
    (h : DirEntry.parse data offset = some (e, next)) : offset + 18 ≤ next := by
  unfold DirEntry.parse at h
  dsimp only at h
  split at h
  · cases h
  · split at h
    · cases h
    · split at h
      · cases h
      · rename_i hsize
        injection h with h
        rw [← (Prod.mk.inj h).2]
        omega

theorem parseDirblockEntries_eq {data : Bytes} (hdata : data.length < 2 ^ 16) (n : ℕ) :
    ∀ offset, data.length ≤ offset + n →
      parseDirblockEntries data n offset = .ok (Pfs3.parseDirblockEntries data n offset) := by
  induction n with
  | zero =>
      intro offset hn
      exact if_pos hn
  | succ n ih =>
      intro offset hn
      rw [parseDirblockEntries, Pfs3.parseDirblockEntries]
      by_cases hoff : data.length ≤ offset
      · rw [if_pos hoff, if_pos hoff]
        rfl
      · rw [if_neg hoff, if_neg hoff, parseDirEntry_eq hdata, ok_bind]
        cases hparse : DirEntry.parse data offset with
        | none => rfl
        | some p =>
            obtain ⟨entry, next⟩ := p
            have hnext := parse_next hparse
            dsimp only
            rw [ih next (by omega), ok_bind]
            rfl

theorem dirblockEntries_eq {data : Bytes} (hdata : data.length < 2 ^ 16) :
    dirblockEntries data = .ok (Pfs3.dirblockEntries data) := by
  unfold dirblockEntries Pfs3.dirblockEntries DIR_BLOCK_HEADER_SIZE
  by_cases hshort : data.length < 20 + 1
  · rw [if_pos hshort, if_pos hshort]
    rfl
  · rw [if_neg hshort, if_neg hshort, readU16_ok (by omega), ok_bind]
    by_cases hid : be16 data 0 ≠ DBLKID
    · rw [if_pos hid, if_pos hid]
      rfl
    · rw [if_neg hid, if_neg hid]
      exact parseDirblockEntries_eq hdata _ _ (by omega)

/-! ## Deldir entries -/

/-- Parse a deldir entry from 32 bytes. -/
def parseDelDirEntry (data : Bytes) : Except Fault (Option DelDirEntry) := do
  if data.length < 32 then pure none
  else do
    let anode ← readU32 data 0
    if anode = 0 then pure none
    else do
      let fsize ← readU32 data 4
      let creationDay ← readU16 data 8
      let creationMinute ← readU16 data 10
      let creationTick ← readU16 data 12
      let filename ← slice data 14 30
      let fsizex ← readU16 data 30
      pure (some
        { anode := anode
          fsize := fsize
          creationDay := creationDay
          creationMinute := creationMinute
          creationTick := creationTick
          filename := (latin1ToString filename).rdropWhile (· = '\x00')
          fsizex := fsizex })

theorem parseDelDirEntry_eq (data : Bytes) :
    parseDelDirEntry data = .ok (DelDirEntry.parse data) := by
  unfold parseDelDirEntry DelDirEntry.parse
  by_cases hshort : data.length < 32
  · rw [if_pos hshort, if_pos hshort]
    rfl
  · rw [if_neg hshort, if_neg hshort, readU32_ok (by omega), ok_bind]
    by_cases hzero : be32 data 0 = 0
    · rw [if_pos hzero, if_pos hzero]
      rfl
    · rw [if_neg hzero, if_neg hzero, readU32_ok (by omega), ok_bind, readU16_ok (by omega),
        ok_bind, readU16_ok (by omega), ok_bind, readU16_ok (by omega), ok_bind,
        slice_ok (by omega) (by omega), ok_bind, readU16_ok (by omega), ok_bind]
      rfl

/-! ## Rootblock -/

/-- `for i in is { let off = base + i * 4; if off + 4 <= data.len() { push } }`. -/
def pushWords (data : Bytes) (base : ℕ) : List ℕ → Except Fault (List ℕ)
  | [] => pure []
  | i :: is => do
      let step ← mulU64 i 4
      let off ← addU64 base step
      let wordEnd ← addU64 off 4
      if wordEnd ≤ data.length then do
        let word ← readU32 data off
        let words ← pushWords data base is
        pure (word :: words)
      else pushWords data base is

def parseRootblock (data : Bytes) : Except Fault Rootblock := do
  if data.length < RB_OFF_INDEX_UNION then throw (.err (.tooShort "rootblock"))
  else do
    let disktype ← cursorU32 data 0
    if disktype ∉ PFS_TYPES then throw (.err (.badMagic "rootblock" disktype))
    else do
      let options ← cursorU32 data RB_OFF_OPTIONS
      let datestamp ← cursorU32 data RB_OFF_DATESTAMP
      -- the creation date and the protection, which no reader uses
      let _ ← cursorU16 data 12
      let _ ← cursorU16 data 14
      let _ ← cursorU16 data 16
      let _ ← cursorU16 data 18
      let namelen ← readU8 data RB_OFF_DISKNAME
      let namelen := min namelen 31
      let diskname ← slice data (RB_OFF_DISKNAME + 1) (RB_OFF_DISKNAME + 1 + namelen)
      let _ ← slice data RB_OFF_LASTRESERVED data.length
      let lastreserved ← cursorU32 data RB_OFF_LASTRESERVED
      let firstreserved ← cursorU32 data RB_OFF_FIRSTRESERVED
      let reservedFree ← cursorU32 data RB_OFF_RESERVED_FREE
      let reservedBlksize ← cursorU16 data RB_OFF_RESERVED_BLKSIZE
      let rblkcluster ← cursorU16 data RB_OFF_RBLKCLUSTER
      let blocksfree ← cursorU32 data RB_OFF_BLOCKSFREE
      let alwaysfree ← cursorU32 data RB_OFF_ALWAYSFREE
      -- `roving_ptr` and `deldir`
      let _ ← cursorU32 data 0x4C
      let _ ← cursorU32 data 0x50
      let disksize ← cursorU32 data RB_OFF_DISKSIZE
      let extension ← cursorU32 data RB_OFF_EXTENSION
      let large := options &&& MODE_SUPERINDEX ≠ 0
      let bitmapindex ← pushWords data RB_OFF_INDEX_UNION
        (List.range' 0 (if large then MAXBITMAPINDEX + 1 else MAXSMALLBITMAPINDEX + 1))
      let indexblocks ← (if large then pure []
        else pushWords data (RB_OFF_INDEX_UNION + (MAXSMALLBITMAPINDEX + 1) * 4)
          (List.range' 0 (MAXSMALLINDEXNR + 1)))
      pure
        { disktype := disktype
          options := options
          datestamp := datestamp
          diskname := latin1ToString diskname
          lastreserved := lastreserved
          firstreserved := firstreserved
          reservedFree := reservedFree
          reservedBlksize := reservedBlksize
          rblkcluster := rblkcluster
          blocksfree := blocksfree
          alwaysfree := alwaysfree
          disksize := disksize
          extension := extension
          bitmapindex := bitmapindex
          indexblocks := indexblocks }

def parseRootblockExt (data : Bytes) : Except Fault RootblockExt := do
  if data.length < 0x40 then throw (.err (.tooShort "rootblock extension"))
  else do
    let id ← readU16 data 0
    if id ≠ EXTENSIONID then throw (.err (.badBlockId "rootblock extension" EXTENSIONID id))
    else do
      -- options, datestamp, version and dates, which no reader uses
      let _ ← slice data 0x04 data.length
      let _ ← cursorU32 data 0x04
      let _ ← cursorU32 data 0x08
      let _ ← cursorU32 data 0x0C
      let _ ← slice data 0x10 data.length
      let _ ← cursorU16 data 0x10
      let _ ← cursorU16 data 0x12
      let _ ← cursorU16 data 0x14
      let _ ← cursorU16 data 0x16
      let _ ← cursorU16 data 0x18
      let _ ← cursorU16 data 0x1A
      let _ ← readU32 data 0x2C
      let fnsize ← readU16 data 0x38
      let superindex ← pushWords data 0x40 (List.range' 0 (MAXSUPER + 1))
      let deldirblocks ← pushWords data 0x90 (List.range' 0 32)
      pure
        { id := id
          fnsize := if fnsize = 0 then 32 else fnsize
          superindex := superindex
          deldirblocks := deldirblocks }

theorem beWords_of_short {l : Bytes} (h : l.length < 4) : beWords l = [] := by
  rw [← List.length_eq_zero_iff, length_beWords]
  omega

theorem beWords_drop_of_le {data : Bytes} {off : ℕ} (h : off + 4 ≤ data.length) :
    beWords (data.drop off) = be32 data off :: beWords (data.drop (off + 4)) := by
  unfold be32
  rw [← List.drop_drop]
  have hlen : 4 ≤ (data.drop off).length := by
    rw [List.length_drop]
    omega
  generalize data.drop off = l at hlen ⊢
  rcases l with _ | ⟨a, _ | ⟨b, _ | ⟨c, _ | ⟨e, rest⟩⟩⟩⟩
  · exact absurd hlen (by decide)
  · exact absurd hlen (by simp)
  · exact absurd hlen (by simp)
  · exact absurd hlen (by simp)
  · rfl

end Checked

end Pfs3
