import Pfs3.Store.Opened
import Pfs3.Model.Cmd

/-!
# Counting free blocks

What `check` asks a volume for: the blocks of a chain, and the free blocks of both bitmaps.
-/

namespace Pfs3

open ByteList BlockCache Stop

namespace BitmapReader

theorem getMsbD_mask {bits i : ℕ} (hbits : bits ≤ 32) :
    (if bits = 32 then BitVec.allOnes 32 else BitVec.allOnes 32 <<< (32 - bits)).getMsbD i =
      decide (i < bits) := by
  split
  · rename_i h
    rw [BitVec.getMsbD_allOnes, h]
  · rw [BitVec.getMsbD_shiftLeft, BitVec.getMsbD_allOnes]
    exact decide_eq_decide.mpr (by omega)

/-- The set bits of a word. -/
theorem countOnes_word (f : ℕ → Bool) (base : ℕ) :
    countOnes (BitRun.word f base) = BitRun.count f base 32 := by
  rw [← BitRun.countP_word f base le_rfl]
  refine List.countP_congr fun i hi => ?_
  rw [decide_eq_true (List.mem_range.mp hi), Bool.true_and]

/-- The set bits of the part of a word that is counted. -/
theorem countOnes_and_mask (f : ℕ → Bool) (base : ℕ) {bits : ℕ} (hbits : bits ≤ 32) :
    countOnes (BitRun.word f base &&&
      (if bits = 32 then BitVec.allOnes 32 else BitVec.allOnes 32 <<< (32 - bits))) =
      BitRun.count f base bits := by
  rw [← BitRun.countP_word f base hbits]
  refine List.countP_congr fun i _ => ?_
  rw [BitVec.getMsbD_and, getMsbD_mask hbits, Bool.and_comm]

theorem countWords_words (f : ℕ → Bool) (n : ℕ) : ∀ base remaining free : ℕ,
    countWords ((BitRun.words f base n).map BitVec.toNat) remaining free =
      (remaining - 32 * n, free + BitRun.count f base (min remaining (32 * n))) := by
  induction n with
  | zero =>
      intro base remaining free
      rw [Nat.mul_zero, Nat.min_zero]
      rfl
  | succ n ih =>
      intro base remaining free
      rw [BitRun.words_succ, List.map_cons, countWords]
      by_cases hz : remaining = 0
      · rw [if_pos hz, hz, Nat.zero_sub, Nat.zero_min]
        rfl
      · rw [if_neg hz, BitVec.ofNat_toNat, BitVec.setWidth_eq]
        dsimp only
        rw [countOnes_and_mask f base (Nat.min_le_right _ _), ih]
        have hmin : min remaining (32 * (n + 1)) =
            min remaining 32 + min (remaining - 32) (32 * n) := by omega
        by_cases hle : 32 ≤ remaining
        · rw [hmin, BitRun.count_add, Nat.min_eq_right hle]
          exact Prod.ext (by simp only; omega) (by simp only; omega)
        · have hzero : min (remaining - 32) (32 * n) = 0 := by omega
          rw [hmin, hzero]
          exact Prod.ext (by simp only; omega) (by simp only [BitRun.count_zero, Nat.add_zero])

end BitmapReader

theorem Holds.readBitmap {dev : Device} {g : Geometry} {m : Meta} (h : Holds dev g m) {i : ℕ}
    (hi : i < g.noBmb) : beWords ((dev.bytesAt (g.bm i) 2).drop 12) =
      (BitRun.words m.free (i * 8096) 253).map BitVec.toNat := by
  obtain ⟨ds, himage⟩ := h.content.bitmap i hi
  have hdrop : (bitmapImage ds i m.free).drop 12 =
      ((BitRun.words m.free (i * 8096) 253).map BitVec.toNat).flatMap enc32 ++ [] := by
    have hlen : 12 = (header BMBLKID ds ++ enc32 i).length := rfl
    rw [List.append_nil, bitmapImage, hlen, List.drop_left, List.flatMap_map]
  have hmod : ∀ w : BitVec 32, w.toNat % 2 ^ 32 = w.toNat := fun w => Nat.mod_eq_of_lt w.isLt
  rw [himage, hdrop, beWords_flatMap, List.map_map]
  have hnil : beWords [] = [] := rfl
  rw [hnil, List.append_nil]
  exact List.map_congr_left fun w _ => hmod w

/-- The loop of `count_free`, from the bitmap block `s` on. -/
theorem Holds.countFreeLoop {dev : Device} {g : Geometry} {m : Meta} {rb : Rootblock}
    (h : Holds dev g m) (hrb : g.SmallRb rb) (n : ℕ) : ∀ {s remaining free : ℕ}, s ≤ g.noBmb →
    remaining ≤ n →
    Reads (Coherent dev 1024 g.IsReserved) Eq
      (BitmapReader.countFreeLoop (.new rb) dev n s remaining free)
      (.ok (free + BitRun.count m.free (s * 8096) (min remaining ((g.noBmb - s) * 8096)))) := by
  have hrbs : (BitmapReader.new rb).reservedBlksize = 1024 := hrb.rbs
  induction n with
  | zero =>
      intro s remaining free _ hr
      obtain rfl : remaining = 0 := by omega
      rw [Nat.zero_min]
      exact reads_pure rfl
  | succ n ih =>
      intro s remaining free hs hr
      unfold BitmapReader.countFreeLoop
      by_cases hz : remaining = 0
      · rw [if_pos hz, hz, Nat.zero_min]
        exact reads_pure rfl
      · rw [if_neg hz]
        refine (h.getBitmapBlock hrb s).seq ?_
        by_cases hlt : s < g.noBmb
        · rw [if_pos hlt]
          dsimp only
          rw [hrbs]
          refine (h.readReserved (g.bm_isReserved hlt)).seq ?_
          have hoff : BITMAP_BLOCK_HEADER_SIZE = 12 := rfl
          rw [hoff, h.readBitmap hlt, BitmapReader.countWords_words]
          dsimp only
          have hrest := @ih (s + 1) (remaining - 32 * 253)
            (free + BitRun.count m.free (s * 8096) (min remaining (32 * 253))) (by omega) (by omega)
          have hsum : BitRun.count m.free (s * 8096) (min remaining (32 * 253)) +
              BitRun.count m.free ((s + 1) * 8096)
                (min (remaining - 32 * 253) ((g.noBmb - (s + 1)) * 8096)) =
              BitRun.count m.free (s * 8096) (min remaining ((g.noBmb - s) * 8096)) := by
            by_cases hle : 8096 ≤ remaining
            · have hmin : min remaining ((g.noBmb - s) * 8096) =
                  8096 + min (remaining - 32 * 253) ((g.noBmb - (s + 1)) * 8096) := by omega
              have hnext : (s + 1) * 8096 = s * 8096 + 8096 := by omega
              rw [hmin, BitRun.count_add, hnext, Nat.min_eq_right (by omega)]
            · have hzero : remaining - 32 * 253 = 0 := by omega
              have hmin : min remaining (32 * 253) = min remaining ((g.noBmb - s) * 8096) := by
                omega
              rw [hzero, Nat.zero_min, hmin, BitRun.count_zero, Nat.add_zero]
          rw [Nat.add_assoc, hsum] at hrest
          exact hrest
        · rw [if_neg hlt]
          have hzero : (g.noBmb - s) * 8096 = 0 := by omega
          rw [hzero, Nat.min_zero]
          exact reads_pure rfl

namespace VolRep

variable {v : Volume} {g : Geometry} {m : Meta} {data : ℕ → Sector} {root : Root}

theorem validateAnodeChain (h : VolRep v g m data) (nr : ℕ) :
    Reads (v.Same g) Eq (Volume.validateAnodeChain nr)
      (m.getChain nr >>= fun chain => .ok (AnodeReader.chainBlocks chain)) := by
  refine (h.getAnodeChain nr).bind ?_
  rintro chain _ rfl -
  exact reads_pure rfl

/-- `bitmap_count_free` counts the free blocks of the data area. -/
theorem bitmapCountFree (h : VolRep v g m data) (hbound : ∀ r, m.free r = true → r < g.dataBlocks) :
    Reads (v.Same g) Eq Volume.bitmapCountFree
      (.ok ((List.range g.dataBlocks).filter m.free).length) := by
  refine reads_get fun c => onCache (v := v) ?_
  have hread := @Holds.countFreeLoop _ _ _ _ h.holds h.rb g.disksize 0 g.disksize 0
    (Nat.zero_le _) le_rfl
  have hle := g.dataBlocks_le
  have hd : g.dataBlocks ≤ g.disksize := Nat.sub_le _ _
  rw [Nat.zero_add, Nat.zero_mul, Nat.sub_zero, BitRun.count_of_bound hbound (by omega)] at hread
  dsimp only
  rw [h.bitmap, h.rb.disksize]
  exact hread

theorem countOnes_words (f : ℕ → Bool) (n : ℕ) : ∀ base : ℕ,
    ((BitRun.words f base n).map BitmapReader.countOnes).sum = BitRun.count f base (32 * n) := by
  induction n with
  | zero => exact fun _ => rfl
  | succ n ih =>
      intro base
      have hmul : 32 * (n + 1) = 32 + 32 * n := by omega
      rw [BitRun.words_succ, List.map_cons, List.sum_cons, ih, BitmapReader.countOnes_word, hmul,
        BitRun.count_add]

/-- `reserved_count_free` counts the free reserved blocks. -/
theorem reservedCountFree (h : VolRep v g m data) (hroot : RootRep g v.dev root) :
    Reads (v.Same g) Eq Volume.reservedCountFree
      (.ok ((List.range g.numreserved).filter root.resFree).length) := by
  refine reads_get fun c => ?_
  have hs : SECTOR_SIZE = 512 := rfl
  have hle := g.cluster_le
  have hlt := g.dataStart_lt
  have htotal := h.total
  have hpos := g.resbm_pos
  have hlen := v.dev.length_bytesAt 2 (2 * g.resbm)
  have hread : v.dev.readBlocks v.rootblock.firstreserved v.rootblock.rblkcluster
      (v.rootblock.rblkcluster * SECTOR_SIZE) = .ok (v.dev.bytesAt 2 (2 * g.resbm)) := by
    rw [h.rb.first, h.rb.cluster, hs]
    exact Device.readBlocks_ok (by omega)
  have hall : (beWords ((v.dev.bytesAt 2 (2 * g.resbm)).drop (SECTOR_SIZE + 12))).map
      (fun w => BitVec.ofNat 32 w) = BitRun.words root.resFree 0 (256 * g.resbm - 131) := by
    rw [← hroot.words, readWords, List.take_of_length_le]
    rw [length_beWords, List.length_drop]
    omega
  have hcover := g.words
  have hdvd := Nat.div_mul_cancel g.dvd
  have hcount : ((beWords ((v.dev.bytesAt 2 (2 * g.resbm)).drop (SECTOR_SIZE + 12))).map
      fun w => BitmapReader.countOnes (BitVec.ofNat 32 w)).sum =
      ((List.range g.numreserved).filter root.resFree).length := by
    have hmap : ((beWords ((v.dev.bytesAt 2 (2 * g.resbm)).drop (SECTOR_SIZE + 12))).map
        fun w => BitmapReader.countOnes (BitVec.ofNat 32 w)) =
        (BitRun.words root.resFree 0 (256 * g.resbm - 131)).map BitmapReader.countOnes := by
      rw [← hall, List.map_map]
      rfl
    rw [hmap, countOnes_words, BitRun.count_of_bound hroot.resFree (by omega)]
  dsimp only
  rw [hread]
  refine Reads.seq (a := v.dev.bytesAt 2 (2 * g.resbm)) (reads_pure rfl) ?_
  rw [hcount]
  exact reads_pure rfl

end VolRep

end Pfs3
