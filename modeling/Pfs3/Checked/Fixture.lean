import Mathlib.Algebra.BigOperators.Group.List.Basic
import Pfs3.Checked.Partitions
import Pfs3.Store.FreshImages

/-!
# The partition table of a fixture

`gen_fixtures` writes a partition table with one partition. Its two blocks have the checksum that
the format asks for, and the detection finds the partition with the geometry that was given.
-/

namespace Pfs3

open ByteList Stop

namespace Rdb

/-! ## The code -/

/-- The longword at offset 8 is set so that all longwords add up to zero. -/
def fixChecksum (block : Bytes) : Except Fault Bytes := do
  let block ← putU32 block 8 0
  if block.length % 4 ≠ 0 then throw .panic
  else do
    let total := (beWords block).sum % U32
    putU32 block 8 ((U32 - total) % U32)

def rdskFields (cyls heads secs : ℕ) : List (ℕ × Bytes) :=
  [(0, enc32 RDSK_MAGIC), (4, enc32 64), (0x0C, enc32 7), (0x10, enc32 512), (0x1C, enc32 1),
    (0x40, enc32 cyls), (0x44, enc32 secs), (0x48, enc32 heads)]

/-- The fields of the PART block; `last` is the last cylinder. -/
def partFields (last heads secs : ℕ) : List (ℕ × Bytes) :=
  [(0, enc32 PART_MAGIC), (4, enc32 64), (0x0C, enc32 7), (0x10, enc32 0xFFFFFFFF), (0x24, [3]),
    (0x25, asBytes ['D', 'H', '0']), (envOff, enc32 16), (envOff + 0x04, enc32 128),
    (envOff + 0x0C, enc32 heads), (envOff + 0x10, enc32 1), (envOff + 0x14, enc32 secs),
    (envOff + 0x18, enc32 2), (envOff + 0x24, enc32 2), (envOff + 0x28, enc32 last),
    (envOff + 0x30, enc32 1), (envOff + 0x34, enc32 0x7FFFFFFE), (envOff + 0x40, enc32 0x50465303)]

/-- The first two blocks of the data. -/
def writeRdb (data : Bytes) (cyls heads secs : ℕ) : Except Fault Bytes := do
  let rdsk ← Format.putAll (rdskFields cyls heads secs) (List.replicate 512 0)
  let rdsk ← fixChecksum rdsk
  let data ← putBytes data 0 rdsk
  let last ← subU32 cyls 1
  let part ← Format.putAll (partFields last heads secs) (List.replicate 512 0)
  let part ← fixChecksum part
  putBytes data 512 part

/-! ## Checksums -/

/-- A longword of a list of longwords. -/
theorem beWords_splice {d : Bytes} {k : ℕ} (v : ℕ) (h : 4 * k + 4 ≤ d.length) :
    beWords (splice d (4 * k) (enc32 v)) = (beWords d).set k (v % 2 ^ 32) := by
  have hlen : (splice d (4 * k) (enc32 v)).length = d.length := length_splice h
  refine List.ext_getElem (by rw [List.length_set, length_beWords, length_beWords, hlen])
    fun i hi _ => ?_
  rw [length_beWords, hlen] at hi
  have hget : ∀ (l : Bytes) (hl : i < (beWords l).length), (beWords l)[i] = be32 l (i * 4) :=
    fun l hl => by
      have hfit : i * 4 + 4 ≤ l.length := by
        rw [length_beWords] at hl
        omega
      rw [← getD_beWords l i hfit, List.getD_eq_getElem _ _ hl]
  rw [List.getElem_set, hget]
  split_ifs with hik
  · subst hik
    rw [Nat.mul_comm k 4, be32_splice_self h]
  · rw [be32_splice_ne h (by rw [length_enc32]; omega), hget]

/-- What `fix_checksum` leaves: the longwords add up to zero, only that at offset 8 is new. -/
structure Fixed (block fixed : Bytes) : Prop where
  length : fixed.length = block.length
  sum : (beWords fixed).sum % 2 ^ 32 = 0
  same : ∀ i n, i + n ≤ 8 ∨ 12 ≤ i → (fixed.drop i).take n = (block.drop i).take n

theorem exists_fixChecksum {block : Bytes} (h : block.length = 512) :
    ∃ fixed, fixChecksum block = .ok fixed ∧ Fixed block fixed := by
  have hfit : 4 * 2 + 4 ≤ block.length := by omega
  have hput : ∀ {d : Bytes} v, d.length = 512 → putU32 d 8 v = .ok (splice d 8 (enc32 v)) :=
    fun v hd => putU32_ok (by omega)
  have hlen : ∀ {d : Bytes} v, d.length = 512 →
      (splice d 8 (enc32 v)).length = 512 := fun v hd => by
    rw [length_splice (by rw [hd, length_enc32]; decide), hd]
  have hzero := hlen 0 h
  unfold fixChecksum
  rw [hput 0 h, ok_bind, if_neg (by rw [hzero]; decide), hput _ hzero]
  generalize hv : (U32 - (beWords (splice block 8 (enc32 0))).sum % U32) % U32 = v
  refine ⟨_, rfl, ⟨by rw [hlen v hzero, h], ?_, fun i n hout => ?_⟩⟩
  · have hset : beWords (splice block 8 (enc32 0)) = (beWords block).set 2 (0 % 2 ^ 32) :=
      beWords_splice 0 hfit
    have hset' : beWords (splice (splice block 8 (enc32 0)) 8 (enc32 v)) =
        (beWords (splice block 8 (enc32 0))).set 2 (v % 2 ^ 32) :=
      @beWords_splice _ 2 v (by rw [hzero]; decide)
    have hlong : 2 < (beWords block).length := by
      rw [length_beWords, h]
      decide
    rw [hset', hset, List.set_set, List.sum_set, if_pos hlong]
    rw [hset, List.sum_set, if_pos hlong] at hv
    have hU : U32 = 2 ^ 32 := rfl
    rw [hU] at hv
    omega
  · rw [take_drop_splice (by rw [hzero, length_enc32]; decide) (by rw [length_enc32]; omega),
      take_drop_splice (by rw [h, length_enc32]; decide) (by rw [length_enc32]; omega)]

theorem Fixed.be32 {block fixed : Bytes} (h : Fixed block fixed) {i : ℕ} (hi : i + 4 ≤ 8 ∨ 12 ≤ i) :
    be32 fixed i = be32 block i :=
  be32_eq_of_take (h.same i 4 hi)

/-! ## The two blocks -/

/-- The fields are put into a block of zeros, and the checksum is set. -/
theorem exists_block {fields : List (ℕ × Bytes)} (h : Format.Ascending 512 0 fields) :
    ∃ img fixed, Format.putAll fields (List.replicate 512 0) = .ok img ∧
      fixChecksum img = .ok fixed ∧ Format.IsImage fields 512 img ∧ Fixed img fixed ∧
      fixed.length = 512 := by
  obtain ⟨n, hput, -⟩ := @Format.putAll_fill 512 fields [] h
  have himg : Format.IsImage fields 512 _ := hput
  obtain ⟨fixed, hfix, hfixed⟩ := exists_fixChecksum himg.length
  exact ⟨_, fixed, hput, hfix, himg, hfixed, hfixed.length.trans himg.length⟩

theorem ascending_rdskFields (cyls heads secs : ℕ) :
    Format.Ascending 512 0 (rdskFields cyls heads secs) := by
  simp [Format.Ascending, rdskFields]

theorem ascending_partFields (last heads secs : ℕ) :
    Format.Ascending 512 0 (partFields last heads secs) := by
  have hname : (asBytes ['D', 'H', '0']).length = 3 := by decide
  simp [Format.Ascending, partFields, hname, envOff]

/-- What the detection reads of the block at the front. -/
theorem rdsk_read {cyls heads secs : ℕ} {img fixed : Bytes}
    (himg : Format.IsImage (rdskFields cyls heads secs) 512 img) (h : Fixed img fixed) :
    be32 fixed 0 = RDSK_MAGIC ∧ be32 fixed RDB_HIGHBLOCK_OFF = 7 := by
  have hmagic := himg.get_be32 0 rfl (by simp [rdskFields])
  have hhigh := himg.get_be32 2 rfl (by simp [rdskFields])
  exact ⟨(h.be32 (by decide)).trans hmagic, (h.be32 (by decide)).trans hhigh⟩

/-- What the detection makes of the PART block. -/
theorem part_read {last heads secs : ℕ} {img fixed : Bytes} (hlast : 2 ≤ last) (hl : last < U32)
    (hh : heads < U32) (hs : secs < U32) (hoffset : 2 * heads * secs * 512 < U64)
    (hblocks : (last - 1) * heads * secs < U64)
    (himg : Format.IsImage (partFields last heads secs) 512 img) (h : Fixed img fixed)
    (hlen : fixed.length = 512) : partition fixed = .ok (some
      { name := ['D', 'H', '0'], offset := 2 * heads * secs * 512,
        blocks := (last - 1) * heads * secs }) := by
  have hread : ∀ i o v, (partFields last heads secs)[i]? = some (o, enc32 v) →
      (∀ p ∈ (partFields last heads secs).drop (i + 1), o + 4 ≤ p.1 ∨ p.1 + p.2.length ≤ o) →
      (o + 4 ≤ 8 ∨ 12 ≤ o) → be32 fixed o = v % 2 ^ 32 := fun i o v hi hout ho =>
    (h.be32 ho).trans (himg.get_be32 i hi hout)
  have hmagic := hread 0 0 PART_MAGIC rfl (by simp [partFields, envOff]) (by decide)
  have hsurfaces := hread 8 _ heads rfl (by simp [partFields, envOff]) (by decide)
  have hbpt := hread 10 _ secs rfl (by simp [partFields, envOff]) (by decide)
  have hlow := hread 12 _ 2 rfl (by simp [partFields, envOff]) (by decide)
  have hhigh := hread 13 _ last rfl (by simp [partFields, envOff]) (by decide)
  have hdostype := hread 16 _ 0x50465303 rfl (by simp [partFields, envOff]) (by decide)
  have hnlen : (fixed.drop 0x24).take 1 = [3] := (h.same 0x24 1 (by decide)).trans
    (himg.get 4 rfl (by simp [partFields, envOff]))
  have htext : (fixed.drop 0x25).take 3 = asBytes ['D', 'H', '0'] :=
    (h.same 0x25 3 (by decide)).trans
      (himg.get 5 rfl (by
        simp [partFields, envOff, show (asBytes ['D', 'H', '0']).length = 3 by decide]))
  have hbyte : fixed.getD 0x24 0 = 3 := by
    have hget := congrArg (fun l => l.getD 0 0) hnlen
    rw [List.getD_eq_getElem?_getD, List.getElem?_take_of_lt (by decide),
      List.getElem?_drop] at hget
    simpa using hget
  have hnameOf : nameOf fixed = ['D', 'H', '0'] := by
    rw [nameOf, hbyte, show min (3 : UInt8).toNat 30 = 3 from rfl, htext]
    decide
  have hpart : isPart fixed = true := by
    unfold isPart
    rw [hmagic, hdostype]
    decide
  have hU : U32 = 2 ^ 32 := rfl
  rw [Nat.mod_eq_of_lt (hU ▸ hh)] at hsurfaces
  rw [Nat.mod_eq_of_lt (hU ▸ hs)] at hbpt
  rw [Nat.mod_eq_of_lt (hU ▸ hl)] at hhigh
  have hcylinders : last - 2 + 1 = last - 1 := by omega
  have hsmall : 2 * heads < U64 ∧ (last - 1) * heads < U64 := by
    have hU64 : U64 = 2 ^ 32 * 2 ^ 32 := rfl
    have hmul : (last - 1) * heads < 2 ^ 32 * 2 ^ 32 :=
      Nat.mul_lt_mul'' (by omega) (hU ▸ hh)
    refine ⟨by omega, hU64 ▸ hmul⟩
  have hrange : range (surfaces fixed) (bpt fixed) (lowCyl fixed) (highCyl fixed) =
      .ok (2 * heads * secs * 512, (last - 1) * heads * secs) := by
    rw [show surfaces fixed = heads from hsurfaces, show bpt fixed = secs from hbpt,
      show lowCyl fixed = 2 from hlow, show highCyl fixed = last from hhigh]
    refine range_ok.mpr ⟨⟨hsmall.1, by omega, hoffset, hlast, by omega, ?_, ?_⟩, rfl, ?_⟩
    · rw [hcylinders]
      exact hsmall.2
    · rw [hcylinders]
      exact hblocks
    · rw [hcylinders]
  rw [partition_eq hlen, if_pos hpart, hrange, ok_bind, hnameOf]
  rfl

/-! ## Detection -/

/-- The scan sees the blocks only. -/
theorem scan_congr {file file' : Bytes} {n : ℕ} : ∀ {blk : ℕ}, (blk + n) * 512 < U64 →
    (∀ i, blk ≤ i → blockOf file i = blockOf file' i) → scan file blk n = scan file' blk n := by
  induction n with
  | zero => exact fun _ _ => rfl
  | succ n ih =>
      intro blk hend hsame
      have hpos : blk * 512 < U64 := lt_of_le_of_lt (Nat.mul_le_mul_right 512 (by omega)) hend
      have hrest : (blk + 1 + n) * 512 < U64 :=
        lt_of_eq_of_lt (congrArg (· * 512) (by omega)) hend
      rw [scan_succ hpos, scan_succ hpos, hsame blk le_rfl,
        ih hrest fun i hi => hsame i (Nat.le_of_succ_le hi)]

/-- What is written is found: the table that `gen_fixtures` makes has one partition, with the
geometry that was given, in front of those that further blocks describe; both blocks add up to
zero, and nothing else of the data changes. -/
theorem written_table_detected {data : Bytes} {cyls heads secs : ℕ} (hdata : 1024 ≤ data.length)
    (hcyls : 3 ≤ cyls) (hc : cyls < U32) (hh : heads < U32) (hs : secs < U32)
    (hoffset : 2 * heads * secs * 512 < U64) (hblocks : (cyls - 2) * heads * secs < U64) :
    ∃ image, writeRdb data cyls heads secs = .ok image ∧ image.length = data.length ∧
      image.drop 1024 = data.drop 1024 ∧ (beWords (blockOf image 0)).sum % 2 ^ 32 = 0 ∧
      (beWords (blockOf image 1)).sum % 2 ^ 32 = 0 ∧
      detectPfs3Partitions image = (scan data 2 6).map (List.cons
        { name := ['D', 'H', '0'], offset := 2 * heads * secs * 512,
          blocks := (cyls - 2) * heads * secs }) := by
  obtain ⟨himg, rdsk, hput, hfix, hisImg, hfixed, hlen⟩ :=
    exists_block (ascending_rdskFields cyls heads secs)
  obtain ⟨pimg, part, hput', hfix', hisImg', hfixed', hlen'⟩ :=
    exists_block (ascending_partFields (cyls - 1) heads secs)
  have hwritten : writeRdb data cyls heads secs = .ok (rdsk ++ (part ++ data.drop 1024)) := by
    have hfront : putBytes data 0 rdsk = .ok (rdsk ++ data.drop 512) := by
      rw [putBytes_ok (by omega), splice, List.take_zero, List.nil_append, Nat.zero_add, hlen]
    have hback : putBytes (rdsk ++ data.drop 512) 512 part =
        .ok (rdsk ++ (part ++ data.drop 1024)) := by
      rw [putBytes_ok (by rw [List.length_append, List.length_drop]; omega), splice, hlen',
        List.take_append_of_le_length (by omega), List.take_of_length_le (by omega),
        List.drop_append, List.drop_of_length_le (by omega), List.nil_append, hlen,
        List.drop_drop, List.append_assoc]
    unfold writeRdb
    rw [hput, ok_bind, hfix, ok_bind, hfront, ok_bind, subU32, if_pos (by omega), ok_bind, hput',
      ok_bind, hfix', ok_bind, hback]
  have hfirst : blockOf (rdsk ++ (part ++ data.drop 1024)) 0 = rdsk := by
    rw [blockOf, Nat.zero_mul, List.drop_zero, List.take_append_of_le_length (by omega),
      List.take_of_length_le (by omega)]
  have hdrop : (rdsk ++ (part ++ data.drop 1024)).drop 512 = part ++ data.drop 1024 := by
    rw [List.drop_append, List.drop_of_length_le (by omega), List.nil_append, hlen, Nat.sub_self,
      List.drop_zero]
  have hsecond : blockOf (rdsk ++ (part ++ data.drop 1024)) 1 = part := by
    rw [blockOf, Nat.one_mul, hdrop, List.take_append_of_le_length (by omega),
      List.take_of_length_le (by omega)]
  have htail : (rdsk ++ (part ++ data.drop 1024)).drop 1024 = data.drop 1024 := by
    have hbehind : (part ++ data.drop 1024).drop 512 = data.drop 1024 := by
      rw [List.drop_append, List.drop_of_length_le (by omega), List.nil_append, hlen', Nat.sub_self,
        List.drop_zero]
    rw [← hdrop, List.drop_drop] at hbehind
    exact hbehind
  refine ⟨_, hwritten, ?_, htail, by rw [hfirst]; exact hfixed.sum,
    by rw [hsecond]; exact hfixed'.sum, ?_⟩
  · rw [List.length_append, List.length_append, List.length_drop]
    omega
  generalize rdsk ++ (part ++ data.drop 1024) = image at hfirst hsecond htail
  obtain ⟨hmagic, hhigh⟩ := rdsk_read hisImg hfixed
  have hpart := part_read (by omega) (by omega) hh hs hoffset
    (by rwa [Nat.sub_sub]) hisImg' hfixed' hlen'
  have hrest : scan image 2 6 = scan data 2 6 := scan_congr (by decide) fun i hi => by
    have hblock := congrArg (fun l => (l.drop ((i - 2) * 512)).take 512) htail
    simp only [List.drop_drop] at hblock
    have hpos : 1024 + (i - 2) * 512 = i * 512 := by omega
    rwa [hpos] at hblock
  have hheader : image.take 512 = rdsk := by
    rw [← hfirst, blockOf, Nat.zero_mul, List.drop_zero]
  unfold detectPfs3Partitions
  dsimp only
  rw [hheader, if_neg (by omega), readU32_ok (by omega), ok_bind, hmagic,
    if_neg (not_not.2 rfl), readU32_ok (by unfold RDB_HIGHBLOCK_OFF; omega), ok_bind, hhigh]
  show scan image 1 7 = _
  rw [scan_succ (by decide), hsecond, if_pos (by omega), hpart, ok_bind, hrest, Nat.sub_sub]
  cases scan data 2 6 <;> rfl

/-- The geometry of the fixture. -/
theorem written_table_detected_small : ∃ image,
    writeRdb (List.replicate 327680 0) 10 2 32 = .ok image ∧ image.length = 327680 ∧
    detectPfs3Partitions image = (scan (List.replicate 327680 0) 2 6).map (List.cons
      { name := ['D', 'H', '0'], offset := 65536, blocks := 512 }) := by
  have hlen : (List.replicate 327680 (0 : UInt8)).length = 327680 := List.length_replicate
  obtain ⟨image, hwritten, himage, -, -, -, hdetect⟩ := @written_table_detected
    (List.replicate 327680 0) 10 2 32 (by rw [hlen]; decide) (by decide) (by decide) (by decide)
    (by decide) (by decide) (by decide)
  exact ⟨image, hwritten, himage.trans hlen, hdetect⟩

end Rdb

end Pfs3
