import Pfs3.Tree.Entries
import Pfs3.Tree.Formatted

/-!
# Encoding an entry

`DirEntry::parse` reads back what `build_dir_entry` writes, wherever in a block the bytes stand and
whatever stands around them.
-/

namespace Pfs3

open ByteList

/-! ## Built entries, read back -/

/-- Bytes written into a block are found there. -/
theorem entryAt_splice {block : Bytes} {off : ℕ} {e : Entry} (h : off + e.size ≤ block.length) :
    EntryAt (splice block off e.bytes) off e := by
  refine ⟨block.drop (off + e.size), ?_⟩
  rw [drop_splice_lt (by rw [e.length_bytes]; exact h) le_rfl, Nat.sub_self, List.take_zero,
    List.nil_append, e.length_bytes]

/-- Two halves of a size below 2^48. -/
theorem halves_or {size : ℕ} (h : size < 2 ^ 48) :
    size % 2 ^ 32 ||| (size / 2 ^ 32 % 65536) <<< 32 = size := by
  have hlt : size % 2 ^ 32 < 2 ^ 32 := Nat.mod_lt _ (by decide)
  rw [Nat.or_comm, ← Nat.shiftLeft_add_eq_or_of_lt hlt, Nat.shiftLeft_eq]
  omega

namespace Entry

section Build

variable {now : Datestamp} {name : Name} {ty : ℤ} {anode fsize prot : ℕ}

theorem text_build (hascii : ∀ c ∈ name, c.toNat < 128) (hlen : name.length ≤ 107) :
    (build now name ty anode fsize prot).text = name := by
  obtain ⟨hback, hbytes⟩ := latin1ToString_asBytes hascii
  have hname : (build now name ty anode fsize prot).name = (asBytes name).take 107 := by rw [build]
  rw [text, hname, List.take_of_length_le (by omega), hback]

theorem signed_ofNat (hlo : -128 ≤ ty) (hhi : ty < 128) :
    signed (UInt8.ofNat (ty % 256).toNat) = ty := by
  have hbyte : (UInt8.ofNat (ty % 256).toNat).toNat = (ty % 256).toNat := by
    rw [UInt8.toNat_ofNat']
    omega
  unfold signed
  rw [hbyte]
  split
  · omega
  · omega

theorem protection_build (h : prot < 256) :
    (build now name ty anode fsize prot).protection.toNat = prot := by
  have hprot : (build now name ty anode fsize prot).protection = UInt8.ofNat prot := by rw [build]
  rw [hprot, UInt8.toNat_ofNat']
  exact Nat.mod_eq_of_lt h

/-- Without the extra field the upper half of the size is zero. -/
theorem fsizex_build : ((build now name ty anode fsize prot).fsizex.map UInt16.toNat).getD 0 =
    fsize / 2 ^ 32 % 65536 := by
  have hu : U32 = 2 ^ 32 := rfl
  have hx : (build now name ty anode fsize prot).fsizex =
      if 0 < fsize / U32 % 65536 then some (UInt16.ofNat (fsize / U32)) else none := by rw [build]
  rw [hx, hu]
  split
  · rw [Option.map_some, Option.getD_some, UInt16.toNat_ofNat']
  · rw [Option.map_none, Option.getD_none]
    omega

theorem fileSize_build (h : fsize < 2 ^ 48) :
    (build now name ty anode fsize prot).fileSize = fsize := by
  have hlo : (build now name ty anode fsize prot).fsize = UInt32.ofNat fsize := by rw [build]
  rw [fileSize, fsizex_build, hlo, UInt32.toNat_ofNat']
  exact halves_or h

end Build

theorem size_even (e : Entry) : e.size % 2 = 0 := Nat.mul_mod_left _ _

end Entry

/-! ## The round trip -/

/-- Encoding an entry at an even offset of a block, and parsing it there. -/
theorem parse_buildDirEntry (now : Datestamp) {name : Name} (hascii : ∀ c ∈ name, c.toNat < 128)
    (hlen : name.length ≤ 107) {entryType : ℤ} (hlo : -128 ≤ entryType) (hhi : entryType < 128)
    {anode fsize protection : ℕ} (hanode : anode < 2 ^ 32) (hfsize : fsize < 2 ^ 48)
    (hprot : protection < 256) {block : Bytes} {off : ℕ} (heven : off % 2 = 0)
    (hfits : off + (Writer.buildDirEntry now name entryType anode fsize protection).length ≤
      block.length) :
    let bytes := Writer.buildDirEntry now name entryType anode fsize protection
    (∃ e, DirEntry.parse (splice block off bytes) off = some (e, off + bytes.length) ∧
      e.name = name ∧ e.entryType = entryType ∧ e.anode = anode ∧ e.protection = protection ∧
      e.fileSize = fsize ∧ e.comment = [] ∧ e.extra = { fsizex := e.extra.fsizex }) ∧
    bytes.length % 2 = 0 ∧ (off + bytes.length) % 2 = 0 ∧ bytes.length ≤ 130 := by
  have hbytes := buildDirEntry_eq now name entryType anode fsize protection
  have htype := @Entry.entryType_build now name entryType anode fsize protection
  have hnr := @Entry.build_anode now name entryType anode fsize protection hanode
  have htext := @Entry.text_build now name entryType anode fsize protection hascii hlen
  have hsize := @Entry.fileSize_build now name entryType anode fsize protection hfsize
  have hbits := @Entry.protection_build now name entryType anode fsize protection hprot
  rw [Entry.signed_ofNat hlo hhi] at htype
  rw [hbytes, Entry.length_bytes] at hfits
  dsimp only
  rw [hbytes, Entry.length_bytes]
  generalize Entry.build now name entryType anode fsize protection = e at *
  have hpar := e.size_even
  refine ⟨⟨e.toDirEntry, (entryAt_splice hfits).parse, htext, htype, hnr, hbits, hsize, rfl, rfl⟩,
    hpar, ?_, e.size_le⟩
  omega

/-- A file of more than 4 GiB, written over a block of other bytes. -/
theorem parse_buildDirEntry_large :
    let bytes := Writer.buildDirEntry ⟨1, 2, 3⟩ ['a', 'b'] ST_FILE 6 4294967303 0
    (∃ e, DirEntry.parse (splice (List.replicate 512 7) 20 bytes) 20 = some (e, 20 + bytes.length) ∧
      e.name = ['a', 'b'] ∧ e.entryType = ST_FILE ∧ e.anode = 6 ∧ e.protection = 0 ∧
      e.fileSize = 4294967303 ∧ e.comment = [] ∧ e.extra = { fsizex := e.extra.fsizex }) ∧
    bytes.length % 2 = 0 ∧ (20 + bytes.length) % 2 = 0 ∧ bytes.length ≤ 130 :=
  parse_buildDirEntry ⟨1, 2, 3⟩ (by simp) (by decide) (by decide) (by decide) (by decide)
    (by decide) (by decide) (by decide) (by rw [List.length_replicate]; decide)

end Pfs3
