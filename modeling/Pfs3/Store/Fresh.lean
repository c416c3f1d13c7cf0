import Pfs3.Store.FreshImages
import Pfs3.Store.SimCommit

/-!
# A fresh volume

A successful format of at most `MAXSMALLDISK` blocks leaves a device that holds the fresh
structured store: an empty root directory, everything else free.
-/

namespace Pfs3

open ByteList Stop

namespace Format

/-! ## The geometry -/

theorem resbmLoop_spec (words : ℕ) : ∀ (n i r : ℕ), words ≤ i + 256 * n → i + 131 = 256 * r →
    words + 131 ≤ 256 * resbmLoop words n i r := by
  intro n
  induction n with
  | zero =>
      intro i r hn hi
      rw [resbmLoop]
      omega
  | succ n ih =>
      intro i r hn hi
      rw [resbmLoop]
      split
      · exact ih (i + 256) (r + 1) (by omega) (by omega)
      · omega

theorem resbmLoop_le (words : ℕ) : ∀ (n i r : ℕ), i + 131 = 256 * r →
    256 * resbmLoop words n i r ≤ max (256 * r) (words + 386) := by
  intro n
  induction n with
  | zero =>
      intro i r _
      rw [resbmLoop]
      omega
  | succ n ih =>
      intro i r hi
      rw [resbmLoop]
      split
      · have hnext := ih (i + 256) (r + 1) (by omega)
        omega
      · omega

theorem resbm1k_le {n : ℕ} (h : n ≤ 2093056) : resbm1k n ≤ 257 := by
  have hle := resbmLoop_le (n / 32) (n / 32) 125 1 rfl
  unfold resbm1k
  omega

theorem words_resbm1k (n : ℕ) : n / 32 + 131 ≤ 256 * resbm1k n :=
  resbmLoop_spec (n / 32) (n / 32) 125 1 (by omega) rfl

theorem blockMode_small {totalBlocks rbs : ℕ} {supermode : Bool}
    (h : blockMode totalBlocks = (rbs, supermode)) (hsmall : totalBlocks ≤ MAXSMALLDISK) :
    rbs = 1024 ∧ supermode = false := by
  unfold blockMode at h
  rw [if_neg (by omega)] at h
  cases h
  exact ⟨rfl, rfl⟩

/-- The geometry of a small volume. -/
theorem Chosen.geometry {totalBlocks rbs n r : ℕ} {supermode : Bool} {l : Layout}
    (h : Chosen totalBlocks rbs supermode n r l) (hsmall : totalBlocks ≤ MAXSMALLDISK) :
    ∃ g : Geometry, g.numreserved = n ∧ g.resbm = r ∧ g.disksize = totalBlocks ∧ g.resbm ≤ 257 ∧
      l = layoutOf 1024 false n r g.dataBlocks := by
  obtain ⟨rfl, rfl⟩ := blockMode_small h.mode hsmall
  have hmax : MAXSMALLDISK = 10241440 := rfl
  have hmod : totalBlocks % U32 = totalBlocks := Nat.mod_eq_of_lt (by
    have hu : U32 = 4294967296 := rfl
    omega)
  have hl := h.layout
  have hroom := h.room
  have halloc := h.alloc
  obtain ⟨hdvd, hmin, hlast⟩ := calcNumReserved_ok h.numreserved
  have hr : r = resbm1k n := by
    have hc := h.cluster
    omega
  have hrc : l.rescluster = 2 := by rw [hl]; rfl
  rw [hrc, hmod] at hl hroom
  have hnb : l.bmBlocknrs.length = bitmapBlocks (totalBlocks - (2 * n + 2)) := by
    rw [hl]
    simp [layoutOf, bitmapBlocks]
  have hni : l.bmiBlocknrs.length = bitmapIndexBlocks (totalBlocks - (2 * n + 2)) := by
    rw [hl]
    simp [layoutOf, bitmapIndexBlocks, bitmapBlocks]
  rw [hnb, hni] at halloc
  refine ⟨⟨n, r, totalBlocks, hdvd, hr ▸ words_resbm1k n, hroom, by omega, hsmall⟩, rfl, rfl, rfl,
    hr ▸ resbm1k_le hlast, hl⟩

end Format

namespace Geometry

variable (g : Geometry)

/-! ## The fresh store -/

/-- The content of a fresh volume's reserved area. -/
def freshMeta : Meta where
  index := Format.freshIndex (blockAt g.base)
  slot := Format.freshSlot (blockAt (g.base + 1))
  dir := Format.freshDir (blockAt (g.base + 1))
  free := fun r => decide (r < g.dataBlocks)

/-- The reserved blocks that a fresh volume has free. -/
def freshFree (k : ℕ) : Bool := decide (g.base + 2 ≤ k) && decide (k < g.numreserved)

/-- What a fresh volume's rootblock cluster says. -/
def freshRoot : Root where
  datestamp := 1
  blocksfree := g.dataBlocks
  reservedFree := g.numreserved - (g.base + 2)
  resFree := g.freshFree

/-- The layout that the formatter chose for `g`. -/
def freshLayout : Format.Layout := Format.layoutOf 1024 false g.numreserved g.resbm g.dataBlocks

theorem freshLayout_indexPerBlock : g.freshLayout.indexPerBlock = 253 := rfl

theorem freshLayout_dataBlocks : g.freshLayout.dataBlocks = g.dataBlocks := rfl

theorem freshLayout_bm : g.freshLayout.bmBlocknrs = (List.range g.noBmb).map g.bm := by
  have hrange : List.range' (g.resbm + 1) g.noBmb =
      (List.range g.noBmb).map fun i => g.resbm + 1 + i := by
    rw [List.range_eq_range', List.map_add_range', Nat.add_zero]
  have hmap : g.freshLayout.bmBlocknrs = (List.range' (g.resbm + 1) g.noBmb).map (Format.blkOf 2) := rfl
  rw [hmap, hrange, List.map_map]
  rfl

theorem freshLayout_bmi : g.freshLayout.bmiBlocknrs = (List.range g.noBmi).map g.bmi := by
  have hrange : List.range' (g.resbm + 1 + g.noBmb) g.noBmi =
      (List.range g.noBmi).map fun i => g.resbm + 1 + g.noBmb + i := by
    rw [List.range_eq_range', List.map_add_range']
    rfl
  have hmap : g.freshLayout.bmiBlocknrs =
      (List.range' (g.resbm + 1 + g.noBmb) g.noBmi).map (Format.blkOf 2) := rfl
  rw [hmap, hrange, List.map_map]
  rfl

theorem freshLayout_anodeBlk : g.freshLayout.anodeBlk = blockAt g.base := by
  have h : g.freshLayout.anodeBlk = blockAt (g.resbm + 1 + g.noBmb + g.noBmi + 1) := rfl
  rw [h, base]
  congr 1
  omega

theorem freshLayout_rootdirBlk : g.freshLayout.rootdirBlk = blockAt (g.base + 1) := by
  have h : g.freshLayout.rootdirBlk = blockAt (g.resbm + 1 + g.noBmb + g.noBmi + 1 + 1) := rfl
  rw [h, base]
  congr 1
  omega

theorem freshLayout_alloc : g.freshLayout.alloc = Format.allocatorAt g.numreserved (g.base + 2) := by
  have h : g.freshLayout.alloc =
      Format.allocatorAt g.numreserved (g.resbm + 1 + g.noBmb + g.noBmi + 1 + 1 + 1) := rfl
  rw [h, base]
  congr 1
  omega

theorem freshMeta_wf : g.freshMeta.Wf g := by
  have hbase := g.base_add_two_le
  have hindex : ∀ s, g.freshMeta.index s ≠ 0 → s = 0 := by
    intro s hs
    by_contra h
    exact hs (if_neg h)
  have hindex₀ : g.freshMeta.index 0 = blockAt g.base := rfl
  refine ⟨fun s hs => ?_, fun s t hs hst => ?_, fun b d hd => ?_, fun r hr => of_decide_eq_true hr⟩
  · obtain rfl := hindex s hs
    rw [hindex₀]
    exact ⟨by omega, g.base, le_rfl, by omega, rfl⟩
  · rw [hindex s hs, hindex t (hst ▸ hs)]
  · have hd' : Format.freshDir (blockAt (g.base + 1)) b = some d := hd
    unfold Format.freshDir at hd'
    split at hd'
    · rename_i hb
      cases hd'
      refine ⟨Nat.zero_lt_succ _, hb ▸ ⟨g.base + 1, by omega, by omega, rfl⟩, fun s hs => ?_⟩
      by_cases h0 : s = 0
      · rw [h0, hindex₀, hb] at hs
        simp only [blockAt] at hs
        omega
      · have hzero : g.freshMeta.index s = 0 := if_neg h0
        rw [hzero, hb] at hs
        simp only [blockAt] at hs
        omega
    · cases hd'

end Geometry

namespace Format

variable {g : Geometry} {totalBlocks : ℕ} {opts : FormatOptions} {now : Datestamp} {d : Device}

/-- A formatted device holds the content of a fresh volume. -/
theorem Laid.holds (h : Laid g.freshLayout totalBlocks opts now d) (htotal : g.disksize ≤ d.total) :
    Holds d g g.freshMeta := by
  refine ⟨⟨?_, ?_, ?_, ?_, ?_⟩, g.freshMeta_wf, htotal⟩
  · obtain ⟨img, himg, hd⟩ := h.anidx
    have hread : d.bytesAt g.anidx 2 = img := hd
    refine ⟨1, hread.trans ((anidx_image himg).trans ?_)⟩
    rw [g.freshLayout_anodeBlk]
    rfl
  · intro s hs
    have hs0 : s = 0 := by
      by_contra hne
      exact hs (if_neg hne)
    obtain ⟨img, himg, hd⟩ := h.anode
    rw [g.freshLayout_anodeBlk] at hd
    have hread : d.bytesAt (Geometry.blockAt g.base) 2 = img := hd
    subst hs0
    refine ⟨1, hread.trans ((anode_image himg).trans ?_)⟩
    rw [g.freshLayout_rootdirBlk]
    rfl
  · intro b dir hb
    have hdir : freshDir (Geometry.blockAt (g.base + 1)) b = some dir := hb
    unfold freshDir at hdir
    split at hdir
    · rename_i hblk
      cases hdir
      obtain ⟨img, himg, hd⟩ := h.rootdir
      rw [g.freshLayout_rootdirBlk] at hd
      have hread : d.bytesAt (Geometry.blockAt (g.base + 1)) 2 = img := hd
      exact ⟨1, hblk ▸ hread.trans (rootdir_image himg)⟩
    · cases hdir
  · intro i hi
    obtain ⟨img, himg, hd⟩ := h.bm i (g.bm i) (by
      rw [g.freshLayout_bm, List.getElem?_map, List.getElem?_range hi]
      rfl)
    have hread : d.bytesAt (g.bm i) 2 = img := hd
    have himage := bm_image g.freshLayout_indexPerBlock himg
    rw [g.freshLayout_dataBlocks] at himage
    exact ⟨1, hread.trans himage⟩
  · intro i hi
    obtain ⟨img, himg, hd⟩ := h.bmi i (g.bmi i) (by
      rw [g.freshLayout_bmi, List.getElem?_map, List.getElem?_range hi]
      rfl)
    have hread : d.bytesAt (g.bmi i) 2 = img := hd
    rw [hread]
    refine ⟨himg.length, fun j hj => ?_⟩
    rw [bmi_image g.freshLayout_indexPerBlock (fun b hb => ?_) himg hj, g.freshLayout_bm]
    · by_cases hlt : i * 253 + j < g.noBmb
      · rw [if_pos hlt, List.getD_eq_getElem?_getD, List.getElem?_map, List.getElem?_range hlt]
        rfl
      · rw [if_neg hlt, List.getD_eq_default]
        simpa using hlt
    · rw [g.freshLayout_bm] at hb
      obtain ⟨k, hk, rfl⟩ := List.mem_map.mp hb
      have hlt := (g.bm_isReserved (List.mem_range.mp hk)).lt
      have hu : U32 = 4294967296 := rfl
      omega

/-! ### The rootblock cluster -/

/-- The reserved bitmap that the formatter writes, as numbers. -/
def freshWords (g : Geometry) : List ℕ := g.freshLayout.alloc.buildBitmap.map BitVec.toNat

theorem length_freshWords (g : Geometry) : (freshWords g).length = g.numreserved / 32 := by
  have hdvd := Nat.div_mul_cancel g.dvd
  rw [freshWords, List.length_map, ReservedAllocator.buildBitmap, List.length_map,
    List.length_range, g.freshLayout_alloc]
  simp only [allocatorAt]
  omega

theorem getD_freshWords (g : Geometry) (j : ℕ) :
    (freshWords g).getD j 0 = (BitRun.word g.freshFree (0 + j * 32)).toNat := by
  by_cases hj : j < g.numreserved / 32
  · have hdvd := Nat.div_mul_cancel g.dvd
    have hword : g.freshLayout.alloc.bitmapWord (j * 32) = BitRun.word g.freshFree (0 + j * 32) := by
      rw [g.freshLayout_alloc, bitmapWord_allocatorAt, Nat.zero_add]
      rfl
    rw [← hword, List.getD_eq_getElem?_getD, freshWords, ReservedAllocator.buildBitmap,
      List.map_map, List.getElem?_map, List.getElem?_range]
    · rfl
    · rw [g.freshLayout_alloc]
      simp only [allocatorAt]
      omega
  · have hzero : BitRun.word g.freshFree (0 + j * 32) = 0 := by
      refine BitRun.word_eq_zero.mpr fun k hk => ?_
      have hdvd := Nat.div_mul_cancel g.dvd
      have hge : ¬ 0 + j * 32 + k < g.numreserved := by omega
      unfold Geometry.freshFree
      rw [decide_eq_false hge, Bool.and_false]
    rw [hzero, List.getD_eq_default _ _ (by rw [length_freshWords]; omega)]
    rfl

/-- The fields behind the head of the rootblock. -/
theorem clusterFields_fresh (g : Geometry) (totalBlocks : ℕ) (opts : FormatOptions)
    (now : Datestamp) :
    (clusterFields g.freshLayout totalBlocks opts now).drop 18 =
      [(0x60, ((List.range g.noBmi).map g.bmi).flatMap enc32), (0x74, [g.anidx].flatMap enc32),
       (512, enc16 BMBLKID), (520, enc32 0), (524, (freshWords g).flatMap enc32)] ∧
    ∀ p ∈ (clusterFields g.freshLayout totalBlocks opts now).take 18, p.1 + p.2.length ≤ 0x60 := by
  have hni := g.noBmi_le
  have hbmi : g.freshLayout.bmiBlocknrs.take (MAXSMALLBITMAPINDEX + 1) =
      (List.range g.noBmi).map g.bmi := by
    rw [g.freshLayout_bmi]
    exact List.take_of_length_le (by simpa [MAXSMALLBITMAPINDEX] using hni)
  have hwords : (g.freshLayout.alloc.buildBitmap.take ((g.freshLayout.rblkcluster * SECTOR_SIZE -
      (SECTOR_SIZE + 12)) / 4)).flatMap (fun w => enc32 w.toNat) = (freshWords g).flatMap enc32 := by
    have hw := g.words
    have hlen := length_freshWords g
    have hcl : g.freshLayout.rblkcluster * SECTOR_SIZE = 2 * g.resbm * 512 := rfl
    have hs : SECTOR_SIZE = 512 := rfl
    rw [freshWords, List.length_map] at hlen
    rw [List.take_of_length_le (by rw [hcl, hs, hlen]; omega), freshWords, List.flatMap_map]
  constructor
  · unfold clusterFields
    rw [hwords]
    simp only [hbmi, Bool.false_eq_true, if_false, show g.freshLayout.supermode = false from rfl]
    rfl
  · have hname : ((asBytes opts.volumeName).take 30).length ≤ 30 := List.length_take_le _ _
    obtain ⟨rest, hfields, -⟩ := clusterFields_split g.freshLayout totalBlocks opts now
    rw [hfields, List.take_left']
    · simp only [List.mem_cons, List.not_mem_nil, or_false]
      rintro p (rfl | rfl | rfl | rfl | rfl | rfl | rfl | rfl | rfl | rfl | rfl | rfl | rfl | rfl |
        rfl | rfl | rfl | rfl) <;> simp
      omega
    · rfl

/-- What the cluster of a fresh volume says behind the head. -/
theorem cluster_words {g : Geometry} {totalBlocks : ℕ} {opts : FormatOptions} {now : Datestamp}
    {img : Bytes}
    (h : IsImage (clusterFields g.freshLayout totalBlocks opts now) (2 * g.resbm * 512) img) :
    (∀ j < 5, be32 img (0x60 + j * 4) = if j < g.noBmi then g.bmi j else 0) ∧
    (∀ j < 99, be32 img (0x74 + j * 4) = if j = 0 then g.anidx else 0) ∧
    ∀ j < 256 * g.resbm - 131, be32 img (524 + j * 4) =
      (BitRun.word g.freshFree (0 + j * 32)).toNat := by
  obtain ⟨hdrop, htake⟩ := clusterFields_fresh g totalBlocks opts now
  generalize clusterFields g.freshLayout totalBlocks opts now = fields at h hdrop htake
  have hni := g.noBmi_le
  have hres := g.resbm_pos
  have hfw := length_freshWords g
  have hgw := g.words
  have hget : ∀ k x, (fields.drop 18)[k]? = some x → fields[18 + k]? = some x := fun k x hk => by
    rwa [List.getElem?_drop] at hk
  have hrest : ∀ k, fields.drop (18 + k + 1) = (fields.drop 18).drop (k + 1) := fun k => by
    rw [List.drop_drop, Nat.add_assoc]
  have hbefore : ∀ k, ∀ p ∈ fields.take (18 + k),
      p ∈ fields.take 18 ∨ p ∈ (fields.drop 18).take k := fun k p hp => by
    rw [List.take_add, List.mem_append] at hp
    exact hp
  have hlt : ∀ b, g.IsReserved b → b % 2 ^ 32 = b := fun b hb => by
    have hb := hb.lt
    omega
  have hbmilen : (((List.range g.noBmi).map g.bmi).flatMap enc32).length = g.noBmi * 4 := by
    simp [List.length_flatMap, Function.comp_def]
  refine ⟨fun j hj => ?_, fun j hj => ?_, fun j hj => ?_⟩
  · have hw := @IsImage.get_words _ _ _ 0x74 _ _ h (18 + 0) (hget 0 _ (by rw [hdrop]; rfl))
      (fun p hp => ?_) (fun p hp => ?_) (by simp; omega) (by omega) (j := j) (by omega)
    · rw [hw, List.getD_eq_getElem?_getD, List.getElem?_map]
      by_cases hji : j < g.noBmi
      · rw [List.getElem?_range hji, if_pos hji]
        exact hlt _ (g.bmi_isReserved hji)
      · rw [List.getElem?_eq_none (by simpa using hji), if_neg hji]
        rfl
    · rcases hbefore 0 p hp with hp | hp
      · exact htake p hp
      · cases hp
    · rw [hrest 0, hdrop] at hp
      simp only [List.drop_succ_cons, List.drop_zero, List.mem_cons, List.not_mem_nil,
        or_false] at hp
      rcases hp with rfl | rfl | rfl | rfl <;> simp
  · have hw := @IsImage.get_words _ _ _ 0x200 _ _ h (18 + 1) (hget 1 _ (by rw [hdrop]; rfl))
      (fun p hp => ?_) (fun p hp => ?_) (by simp) (by omega) (j := j) (by omega)
    · rw [hw]
      rcases j with _ | j
      · exact hlt _ g.anidx_isReserved
      · rfl
    · rcases hbefore 1 p hp with hp | hp
      · have := htake p hp
        omega
      · rw [hdrop] at hp
        rcases List.mem_singleton.mp hp with rfl
        simp only [hbmilen]
        omega
    · rw [hrest 1, hdrop] at hp
      simp only [List.drop_succ_cons, List.drop_zero, List.mem_cons, List.not_mem_nil,
        or_false] at hp
      rcases hp with rfl | rfl | rfl <;> simp
  · have hw := @IsImage.get_words _ _ _ (2 * g.resbm * 512) _ _ h (18 + 4) (hget 4 _ (by rw [hdrop]; rfl))
      (fun p hp => ?_) (fun p hp => ?_) (by omega) le_rfl (j := j) (by omega)
    · rw [hw, getD_freshWords]
      exact Nat.mod_eq_of_lt (BitVec.isLt _)
    · rcases hbefore 4 p hp with hp | hp
      · have := htake p hp
        omega
      · rw [hdrop] at hp
        simp only [List.take_succ_cons, List.take_zero, List.mem_cons, List.not_mem_nil,
          or_false] at hp
        rcases hp with rfl | rfl | rfl | rfl
        · simp only [hbmilen]
          omega
        · simp
        · simp [enc16]
        · simp
    · rw [hrest 4, hdrop] at hp
      cases hp

theorem getD_readWords_ite {d : Bytes} {off n : ℕ} {f : ℕ → ℕ} (hlen : off + n * 4 ≤ d.length)
    (h : ∀ i < n, be32 d (off + i * 4) = f i) (hout : ∀ i, n ≤ i → f i = 0) (i : ℕ) :
    (readWords d off n).getD i 0 = f i := by
  by_cases hi : i < n
  · rw [getD_readWords hi (by omega), h i hi]
  · rw [List.getD_eq_default _ _ (by rw [length_readWords hlen]; omega), hout i (by omega)]

/-- What opening a fresh volume reads from the rootblock. -/
theorem Laid.parse (h : Laid g.freshLayout g.disksize opts now d) (hcluster : g.resbm ≤ 257) :
    ∃ rb, Rootblock.parse (d.bytesAt 2 (2 * g.resbm)) = .ok rb ∧ g.SmallRb rb ∧
      rb.hasExtension = true ∧ rb.extension = g.rext ∧ rb.datestamp = 1 ∧
      rb.blocksfree = g.dataBlocks ∧ rb.reservedFree = g.numreserved - (g.base + 2) ∧
      rb.diskname = latin1ToString ((asBytes opts.volumeName).take 30) := by
  obtain ⟨img, himg, hd⟩ := h.cluster
  have hread : d.bytesAt 2 (2 * g.resbm) = img := hd
  have himg' : IsImage (clusterFields g.freshLayout g.disksize opts now) (2 * g.resbm * 512) img :=
    himg
  have hhead := head_image himg'
  obtain ⟨hbmi, hidx, -⟩ := cluster_words himg'
  have hlen : img.length = 2 * g.resbm * 512 := himg'.length
  have hres := g.resbm_pos
  have hsize := g.disksize_lt
  have hstart := g.dataStart_lt
  have hni := g.noBmi_le
  have hbase := g.base_add_two_le
  have hds : g.dataStart = 2 * g.numreserved + 2 := rfl
  have hdb : g.dataBlocks = g.disksize - g.dataStart := rfl
  have hu : RB_OFF_INDEX_UNION = 0x60 := rfl
  have hmagic : ¬ be32 img 0 ∉ PFS_TYPES := by rw [hhead.magic]; decide
  have hoptions := hhead.options
  have hsuper : g.freshLayout.supermode = false := rfl
  rw [options, hsuper] at hoptions
  have hlarge : ¬ be32 img RB_OFF_OPTIONS &&& MODE_SUPERINDEX ≠ 0 := by
    rw [hoptions]
    decide
  have hname : ((asBytes opts.volumeName).take 30).length ≤ 30 := List.length_take_le _ _
  have hnamelen : min (img.getD RB_OFF_DISKNAME 0).toNat 31 =
      ((asBytes opts.volumeName).take 30).length := by
    rw [hhead.namelen, UInt8.toNat_ofNat']
    omega
  have hext : be32 img RB_OFF_EXTENSION = g.rext := by
    have hlt := g.rext_isReserved.lt
    have hrext : g.freshLayout.rextBlk = g.rext := rfl
    rw [hhead.extension, hrext]
    omega
  have hfree : g.freshLayout.alloc.freeCount = g.numreserved - (g.base + 2) := by
    rw [g.freshLayout_alloc, freeCount_allocatorAt hbase]
  have hbm : ∀ i, (readWords img 0x60 5).getD i 0 = if i < g.noBmi then g.bmi i else 0 :=
    getD_readWords_ite (f := fun i => if i < g.noBmi then g.bmi i else 0) (by omega) hbmi
      fun i hi => if_neg (by omega)
  have hix : ∀ i, (readWords img 0x74 99).getD i 0 = if i = 0 then g.anidx else 0 :=
    getD_readWords_ite (f := fun i => if i = 0 then g.anidx else 0) (by omega) hidx
      fun i hi => if_neg (by omega)
  rw [hread]
  unfold Rootblock.parse
  rw [if_neg (by omega), if_neg hmagic]
  dsimp only
  rw [hnamelen, hhead.name, if_neg hlarge, if_neg hlarge]
  refine ⟨_, rfl, ⟨?_, ?_, ?_, ?_, hhead.firstreserved, ?_, ?_, ?_, hbm, hix⟩, ?_, hext,
    hhead.datestamp, ?_, ?_, rfl⟩
  · show (be32 img RB_OFF_OPTIONS &&& MODE_SUPERINDEX != 0) = false
    rw [hoptions]
    decide
  · show (be32 img RB_OFF_OPTIONS &&& MODE_SPLITTED_ANODES != 0) = true
    rw [hoptions]
    decide
  · show (be32 img RB_OFF_OPTIONS &&& MODE_DELDIR != 0) = false
    rw [hoptions]
    decide
  · exact hhead.reservedBlksize
  · have hlast : g.freshLayout.lastreserved = 2 * g.numreserved + 1 := rfl
    refine hhead.lastreserved.trans ?_
    rw [hlast]
    omega
  · have hrc : g.freshLayout.rblkcluster = 2 * g.resbm := rfl
    refine hhead.rblkcluster.trans ?_
    rw [hrc]
    omega
  · refine hhead.disksize.trans ?_
    omega
  · have hne : g.rext ≠ 0 := by
      simp only [Geometry.rext, Geometry.blockAt]
      omega
    have hflag : (be32 img RB_OFF_OPTIONS &&& MODE_EXTENSION != 0) = true := by
      rw [hoptions]
      decide
    show ((be32 img RB_OFF_OPTIONS &&& MODE_EXTENSION != 0) && be32 img RB_OFF_EXTENSION != 0) = true
    rw [hflag, hext]
    simpa using hne
  · refine hhead.blocksfree.trans ?_
    rw [g.freshLayout_dataBlocks]
    omega
  · refine hhead.reservedFree.trans ?_
    rw [hfree]
    omega

theorem Laid.parseExt (h : Laid g.freshLayout totalBlocks opts now d) :
    ∃ x, RootblockExt.parse (d.bytesAt g.rext 2) = .ok x ∧ ∀ b ∈ x.deldirblocks, b = 0 := by
  obtain ⟨img, himg, hd⟩ := h.rext
  have hread : d.bytesAt g.rext 2 = img := hd
  have hfields : rextFields g.freshLayout now =
      [(0x00, enc16 EXTENSIONID), (0x08, enc32 1), (0x0C, enc32 0x00130002), (0x10, enc16 now.day),
       (0x12, enc16 now.minute), (0x14, enc16 now.tick), (0x38, enc16 32)] := rfl
  have himg' : IsImage (rextFields g.freshLayout now) 1024 img := himg
  rw [hfields] at himg'
  have hlen := himg'.length
  have hid : be16 img 0 = EXTENSIONID := himg'.get_be16 0 rfl (by simp)
  rw [hread, RootblockExt.parse, if_neg (by omega), if_neg (by rw [hid]; exact fun h => h rfl)]
  refine ⟨_, rfl, fun b hb => ?_⟩
  obtain ⟨i, hi, rfl⟩ := List.getElem_of_mem hb
  have hn : (readWords img 0x90 32).length = 32 := length_readWords (by omega)
  have hi' : i < 32 := by
    rw [← hn]
    exact hi
  have hgap := himg'.gap (i := 0x90 + i * 4) (n := 4) (fun p hp => by
    simp only [List.mem_cons, List.not_mem_nil, or_false] at hp
    rcases hp with rfl | rfl | rfl | rfl | rfl | rfl | rfl <;> simp [enc16] <;> omega) (by omega)
  have hget : (readWords img 0x90 32)[i] = be32 img (0x90 + i * 4) := by
    rw [← getD_readWords hi' (by omega), List.getD_eq_getElem?_getD, List.getElem?_eq_getElem hi]
    rfl
  show (readWords img 0x90 32)[i] = 0
  rw [hget, be32_take, hgap]
  rfl

/-- A formatted device says what a fresh volume's rootblock says. -/
theorem Laid.rootRep (h : Laid g.freshLayout g.disksize opts now d) (hcluster : g.resbm ≤ 257) :
    RootRep g d g.freshRoot := by
  obtain ⟨rb, hparse, hsmall, hext, hrext, hds, hbf, hrf, -⟩ := h.parse hcluster
  obtain ⟨img, himg, hd⟩ := h.cluster
  have hread : d.bytesAt 2 (2 * g.resbm) = img := hd
  have himg' : IsImage (clusterFields g.freshLayout g.disksize opts now) (2 * g.resbm * 512) img :=
    himg
  have hlen : img.length = 2 * g.resbm * 512 := himg'.length
  have hs : SECTOR_SIZE = 512 := rfl
  have hres := g.resbm_pos
  obtain ⟨-, -, hwords⟩ := cluster_words himg'
  have hfit : SECTOR_SIZE + 12 + (256 * g.resbm - 131) * 4 ≤ img.length := by
    rw [hlen, hs]
    omega
  refine ⟨⟨rb, hparse, hsmall, hext, hrext, hds, hbf, hrf⟩, h.parseExt, ?_, fun k hk => ?_⟩
  · rw [hread]
    apply List.ext_getElem
    · rw [List.length_map, length_readWords hfit, BitRun.length_words]
    · intro j hj hj'
      have hjn : j < 256 * g.resbm - 131 := by simpa using hj'
      have hw := @getD_readWords img (SECTOR_SIZE + 12) _ _ hjn (by rw [hs] at hfit ⊢; omega)
      have hjr : j < (readWords img (SECTOR_SIZE + 12) (256 * g.resbm - 131)).length := by
        simpa using hj
      rw [List.getD_eq_getElem?_getD, List.getElem?_eq_getElem hjr] at hw
      have hword : (readWords img (SECTOR_SIZE + 12) (256 * g.resbm - 131))[j] =
          (BitRun.word g.freshFree (0 + j * 32)).toNat := hw.trans (hwords j hjn)
      have hpos : 0 + 32 * j = 0 + j * 32 := by omega
      rw [List.getElem_map, hword, BitRun.getElem_words, BitVec.ofNat_toNat, BitVec.setWidth_eq, hpos]
      rfl
  · have hfree : g.freshFree k = true := hk
    simp only [Geometry.freshFree, Bool.and_eq_true, decide_eq_true_eq] at hfree
    exact hfree.2

/-- What a successful small-mode format leaves on the device. -/
structure Fresh (g : Geometry) (opts : FormatOptions) (now : Datestamp) (d : Device) : Prop where
  laid : Laid g.freshLayout g.disksize opts now d
  cluster : g.resbm ≤ 257
  total : g.disksize ≤ d.total

theorem Fresh.holds (h : Fresh g opts now d) : Holds d g g.freshMeta := h.laid.holds h.total

theorem Fresh.rootRep (h : Fresh g opts now d) : RootRep g d g.freshRoot := h.laid.rootRep h.cluster

/-- A successful format of at most `MAXSMALLDISK` blocks. -/
theorem fresh_of_format {res : FormatResult} {d' : Device}
    (h : formatWithSize totalBlocks opts now d = .ok res d') (hsound : d.Sound)
    (htotal : totalBlocks ≤ d.total) (hsmall : totalBlocks ≤ MAXSMALLDISK) :
    ∃ g, g.disksize = totalBlocks ∧ res.dataBlocks = g.dataBlocks ∧ Fresh g opts now d' := by
  obtain ⟨rbs, supermode, n, r, l, hchosen, hlaid, htot, -, -, hdata, -⟩ := of_format h hsound htotal
  obtain ⟨g, rfl, rfl, rfl, hcluster, rfl⟩ := hchosen.geometry hsmall
  exact ⟨g, rfl, hdata, hlaid, hcluster, htot ▸ htotal⟩

end Format

end Pfs3
