import Pfs3.Store.Counts
import Pfs3.Store.FormatRoom
import Pfs3.Tree.Start
import Pfs3.Walk.Depth
import Pfs3.Store.VolumeName

/-!
# Formatting and opening

What a volume says that was opened right after a format.  In small mode it says what the
formatter was asked for.  In super mode the formatter enters the anode index block where the
reader expects a super block, so the root directory cannot be found.
-/

namespace Pfs3

open ByteList BlockCache Stop

/-! ## What the formatter laid out, as a reader finds it -/

namespace Volume

variable (v : Volume)

/-- Sectors of a reserved block. -/
def rescluster : ℕ := v.rootblock.reservedBlksize / SECTOR_SIZE

/-- Number of bitmap blocks that the data area needs. -/
def noBmb : ℕ :=
  (v.rootblock.disksize - (v.rootblock.lastreserved + 1) + v.rootblock.indexPerBlock * 32 - 1) /
    (v.rootblock.indexPerBlock * 32)

/-- Number of bitmap index blocks that these need. -/
def noBmi : ℕ := (v.noBmb + v.rootblock.indexPerBlock - 1) / v.rootblock.indexPerBlock

/-- The bitmap block with the number `seqnr`, 0 if there is none. -/
def bitmapBlock (seqnr : ℕ) : ℕ :=
  match v.answer (onCache (v.bitmap.getBitmapBlock seqnr)) with
  | .ok (some blk) => blk
  | _ => 0

/-- The first anode index block. -/
def anodeIndexBlock : ℕ :=
  if v.anodes.isLarge then v.anodes.superindex.getD 0 0 else v.anodes.indexblocks.getD 0 0

/-- The first anode block, 0 if there is none. -/
def anodeBlock : ℕ :=
  match v.answer (onCache (v.anodes.resolveAnodeBlock 0)) with
  | .ok blk => blk
  | .error _ => 0

/-- The areas in use: first sector and number of sectors. -/
def usedAreas (rootdir : ℕ) : List (ℕ × ℕ) :=
  (v.rootblock.firstreserved, v.rootblock.rblkcluster) ::
    (v.rootblock.extension :: ((List.range v.noBmb).map v.bitmapBlock ++
      (List.range v.noBmi).map (fun i => v.rootblock.bitmapindex.getD i 0) ++
      [v.anodeIndexBlock, v.anodeBlock, rootdir])).map fun blk => (blk, v.rescluster)

/-- Whether the reserved bitmap of the rootblock cluster marks the `k`-th reserved block free. -/
def marksFree (k : ℕ) : Bool :=
  (BitVec.ofNat 32 (be32 (v.dev.bytesAt v.rootblock.firstreserved v.rootblock.rblkcluster)
    (SECTOR_SIZE + 12 + k / 32 * 4))).getMsbD (k % 32)

end Volume

/-- The volume says what the formatter was asked for, and what it answered. -/
structure AgreesWithFormat (v : Volume) (totalBlocks : ℕ) (opts : FormatOptions)
    (res : FormatResult) : Prop where
  empty : v.answer (Volume.listDir ['/']) = .ok []
  /-- The root directory is one directory block. -/
  rootdir : ∃ an blk hdr, v.answer (Volume.getAnodeChain ANODE_ROOTDIR) = .ok [an] ∧
    AnodeReader.chainBlocks [an] = [blk] ∧
    DirBlockHeader.parse (v.dev.bytesAt blk v.rescluster) = .ok hdr ∧
    (v.usedAreas blk).Pairwise (fun a b => a.1 + a.2 ≤ b.1 ∨ b.1 + b.2 ≤ a.1) ∧
    ∀ a ∈ v.usedAreas blk, v.rootblock.firstreserved ≤ a.1 ∧
      a.1 + a.2 ≤ v.rootblock.lastreserved + 1 ∧
      ∀ k, a.1 ≤ v.rootblock.firstreserved + k * v.rescluster →
        v.rootblock.firstreserved + k * v.rescluster < a.1 + a.2 → v.marksFree k = false
  name : v.name = opts.volumeName
  totalBlocks : v.totalBlocks = totalBlocks
  blocksfree : v.answer Volume.bitmapCountFree = .ok v.rootblock.blocksfree ∧
    v.rootblock.blocksfree = res.dataBlocks
  reservedFree : v.answer Volume.reservedCountFree = .ok v.rootblock.reservedFree

/-! ## Small mode -/

namespace Geometry

variable (g : Geometry)

/-- The used blocks of a fresh volume lie one behind the other. -/
theorem usedAreas_eq {v : Volume} {data : ℕ → Sector} (hv : VolRep v g g.freshMeta data)
    (hext : v.rootblock.extension = g.rext) :
    v.usedAreas (blockAt (g.base + 1)) = (2, 2 * g.resbm) ::
      (List.range' g.resbm (g.noBmb + g.noBmi + 4)).map fun k => (blockAt k, 2) := by
  have hs : SECTOR_SIZE = 512 := rfl
  have hrc : v.rescluster = 2 := by rw [Volume.rescluster, hv.rb.rbs, hs]
  have hipb : v.rootblock.indexPerBlock = 253 := by
    rw [Rootblock.indexPerBlock, hv.rb.rbs]
  have hstart : g.dataStart = 2 * g.numreserved + 2 := rfl
  have hbmb : v.noBmb = g.noBmb := by
    rw [Volume.noBmb, hipb, hv.rb.disksize, hv.rb.last]
    rfl
  have hbmi : v.noBmi = g.noBmi := by
    rw [Volume.noBmi, hipb, hbmb]
    rfl
  have hbm : (List.range v.noBmb).map v.bitmapBlock = (List.range' (g.resbm + 1) g.noBmb).map blockAt := by
    have hrange : List.range' (g.resbm + 1) g.noBmb =
        (List.range g.noBmb).map fun i => g.resbm + 1 + i := by
      rw [List.range_eq_range', List.map_add_range', Nat.add_zero]
    rw [hbmb, hrange, List.map_map]
    refine List.map_congr_left fun i hi => ?_
    have hread := VolRep.onCache (v := v) (hv.holds.getBitmapBlock hv.rb i)
    rw [if_pos (List.mem_range.mp hi), ← hv.bitmap] at hread
    obtain ⟨_, hans, rfl⟩ := answer_of_reads hread hv.refl
    rw [Volume.bitmapBlock, hans]
    rfl
  have hbmis : (List.range v.noBmi).map (fun i => v.rootblock.bitmapindex.getD i 0) =
      (List.range' (g.resbm + 1 + g.noBmb) g.noBmi).map blockAt := by
    have hrange : List.range' (g.resbm + 1 + g.noBmb) g.noBmi =
        (List.range g.noBmi).map fun i => g.resbm + 1 + g.noBmb + i := by
      rw [List.range_eq_range', List.map_add_range']
      rfl
    rw [hbmi, hrange, List.map_map]
    refine List.map_congr_left fun i hi => ?_
    rw [hv.rb.bitmapindex, if_pos (List.mem_range.mp hi)]
    rfl
  have hindex : v.anodeIndexBlock = g.anidx := by
    have hlarge : v.anodes.isLarge = false := by
      rw [hv.anodes]
      exact hv.rb.large
    rw [Volume.anodeIndexBlock, hlarge, if_neg Bool.false_ne_true, hv.anodes]
    exact (hv.rb.indexblocks 0).trans (if_pos rfl)
  have hanode : v.anodeBlock = blockAt g.base := by
    have hread := VolRep.onCache (v := v) (hv.holds.resolve hv.reader 0)
    obtain ⟨_, hans, rfl⟩ := answer_of_reads hread hv.refl
    rw [Volume.anodeBlock, hans]
    rfl
  have hsplit : List.range' g.resbm (g.noBmb + g.noBmi + 4) = g.resbm ::
      (List.range' (g.resbm + 1) g.noBmb ++ List.range' (g.resbm + 1 + g.noBmb) g.noBmi ++
        [g.resbm + 1 + g.noBmb + g.noBmi, g.base, g.base + 1]) := by
    have hbase : g.base = g.resbm + 1 + g.noBmb + g.noBmi + 1 := by
      unfold base
      omega
    have hlen : g.noBmb + g.noBmi + 4 = g.noBmb + (g.noBmi + 3) + 1 := by omega
    rw [hbase, hlen, List.range'_succ, ← List.range'_append_1, ← List.range'_append_1,
      ← List.append_assoc]
    rfl
  rw [Volume.usedAreas, hbm, hbmis, hindex, hanode, hv.rb.first, hv.rb.cluster, hext, hrc, hsplit,
    List.map_cons, List.map_cons, List.map_append, List.map_append, List.map_append,
    List.map_append, List.map_map, List.map_map]
  rfl

/-- Blocks one behind the other do not overlap. -/
theorem usedAreas_pairwise (n : ℕ) :
    ((2, 2 * g.resbm) :: (List.range' g.resbm n).map fun k => (blockAt k, 2)).Pairwise
      fun a b => a.1 + a.2 ≤ b.1 ∨ b.1 + b.2 ≤ a.1 := by
  rw [List.pairwise_cons]
  refine ⟨fun b hb => ?_, ?_⟩
  · obtain ⟨k, hk, rfl⟩ := List.mem_map.mp hb
    have hle := (List.mem_range'_1.mp hk).1
    simp only [blockAt]
    omega
  · have hlt : (List.range' g.resbm n).Pairwise (· < ·) := List.pairwise_lt_range'
    refine List.pairwise_map.mpr (hlt.imp fun {a b} hab => ?_)
    simp only [blockAt]
    omega

end Geometry

/-- The bits of the reserved bitmap on the device. -/
theorem RootRep.marksFree {v : Volume} {g : Geometry} {m : Meta} {data : ℕ → Sector} {root : Root}
    (h : RootRep g v.dev root) (hv : VolRep v g m data) {k : ℕ} (hk : k < g.numreserved) :
    v.marksFree k = root.resFree k := by
  have hs : SECTOR_SIZE = 512 := rfl
  have hcover := g.words
  have hdvd := Nat.div_mul_cancel g.dvd
  have hlen := v.dev.length_bytesAt 2 (2 * g.resbm)
  have hword : k / 32 < 256 * g.resbm - 131 := by omega
  have hget := congrArg (fun l : List (BitVec 32) => l[k / 32]?) h.words
  have hpos : 32 * (k / 32) + k % 32 = k := Nat.div_add_mod k 32
  have hread := @getD_readWords (v.dev.bytesAt 2 (2 * g.resbm)) (SECTOR_SIZE + 12) _ _ hword
    (by omega)
  rw [List.getD_eq_getElem?_getD] at hread
  rw [List.getElem?_map, BitRun.getElem?_words hword, Option.map_eq_some_iff] at hget
  obtain ⟨w, hw, hbits⟩ := hget
  rw [hw, Option.getD_some] at hread
  rw [Volume.marksFree, hv.rb.first, hv.rb.cluster, ← hread, hbits,
    BitRun.getMsbD_word _ _ (Nat.mod_lt k (by omega)), Nat.zero_add, hpos]

/-- A fresh small-mode volume agrees with its format. -/
theorem Format.Fresh.agrees {g : Geometry} {opts : FormatOptions} {now : Datestamp} {d : Device}
    {res : FormatResult} (h : Format.Fresh g opts now d) (hdata : res.dataBlocks = g.dataBlocks)
    (hascii : ∀ c ∈ opts.volumeName, c.toNat < 128) (hlen : opts.volumeName.length ≤ 30) :
    ∃ v, Volume.fromDevice d = .ok v ∧ AgreesWithFormat v g.disksize opts res := by
  obtain ⟨v, hopen, hv, rfl, -, hbf, hrf, hext, hparse⟩ := fromDevice_ok h.holds h.rootRep
  have hset := g.settled_freshStore v.dev.sectors fun _ => ⟨0, 0, 0⟩
  have hroot := g.freshOwners_root
  have hrc : v.rescluster = 2 := by
    have hs : SECTOR_SIZE = 512 := rfl
    rw [Volume.rescluster, hv.rb.rbs, hs]
  refine ⟨v, hopen, ?_, ?_, ?_, hv.rb.disksize, ⟨?_, ?_⟩, ?_⟩
  · have hlist : g.freshMeta.listDir ['/'] = .ok [] := by
      have hempty := hset.listEntries hroot rfl (hset.getChain hroot)
      rw [g.entriesOf_freshStore] at hempty
      exact hempty
    have hread := hv.listDir ['/']
    rw [hlist] at hread
    obtain ⟨_, hans, hnil⟩ := answer_of_reads hread hv.refl
    rw [hans, show _ = _ from hnil]
    rfl
  · obtain ⟨ds, himage⟩ := hv.content.dirs (Geometry.blockAt (g.base + 1)) ⟨ANODE_ROOTDIR, ANODE_ROOTDIR, []⟩
      (if_pos rfl)
    have hread := hv.getAnodeChain ANODE_ROOTDIR
    have hchain : g.freshMeta.getChain ANODE_ROOTDIR = .ok g.freshRootDir.chain :=
      hset.getChain hroot
    rw [hchain] at hread
    obtain ⟨_, hans, rfl⟩ := answer_of_reads hread hv.refl
    refine ⟨_, Geometry.blockAt (g.base + 1), _, hans, rfl,
      hrc.symm ▸ (congrArg DirBlockHeader.parse himage).trans (parse_dirImage ds _), ?_, ?_⟩
    · rw [g.usedAreas_eq hv hext]
      exact g.usedAreas_pairwise _
    · rw [g.usedAreas_eq hv hext, hv.rb.first, hv.rb.last, hrc]
      have hbase := g.base_add_two_le
      have hdef : g.base = g.resbm + 2 + g.noBmb + g.noBmi := rfl
      -- what lies before the root directory's end is taken
      have hused : ∀ k, k < g.base + 2 → v.marksFree k = false := fun k hk => by
        rw [h.rootRep.marksFree hv (by omega)]
        show (decide (g.base + 2 ≤ k) && _) = false
        rw [decide_eq_false (by omega), Bool.false_and]
      rintro a ha
      rcases List.mem_cons.mp ha with rfl | ha
      · exact ⟨le_rfl, by simp only; omega, fun k _ hk => hused k (by simp only at hk; omega)⟩
      · obtain ⟨j, hj, rfl⟩ := List.mem_map.mp ha
        have hrange := List.mem_range'_1.mp hj
        simp only [Geometry.blockAt]
        exact ⟨by omega, by omega, fun k _ hk => hused k (by omega)⟩
  · obtain ⟨rb, hrb, -, -, -, -, -, -, hname⟩ := h.laid.parse h.cluster
    rw [hparse] at hrb
    cases hrb
    obtain ⟨hback, hbytes⟩ := latin1ToString_asBytes hascii
    rw [Volume.name, hname, List.take_of_length_le (by omega), hback]
  · have hread := hv.bitmapCountFree fun r hr => of_decide_eq_true hr
    have hcount : ((List.range g.dataBlocks).filter g.freshMeta.free).length = g.dataBlocks :=
      hset.countFree
    rw [hcount] at hread
    obtain ⟨_, hans, rfl⟩ := answer_of_reads hread hv.refl
    rw [hans, hbf]
    rfl
  · rw [hbf, hdata]
    rfl
  · have hread := hv.reservedCountFree h.rootRep
    have hcount : ((List.range g.numreserved).filter g.freshRoot.resFree).length =
        g.freshRoot.reservedFree := hset.countReserved
    rw [hcount] at hread
    obtain ⟨_, hans, rfl⟩ := answer_of_reads hread hv.refl
    rw [hans, hrf]

/-! ## Super mode -/

section Lost

variable {dev : Device} {r : AnodeReader}

theorem AnodeReader.reads_indexEntry {block : ℕ} (offset : ℕ) {data : Bytes}
    (h : dev.readReserved r.reservedBlksize block = .ok data) (hlen : 16 + offset * 4 ≤ data.length) :
    Reads (fun c => c.Mirrors dev r.reservedBlksize) Eq (r.readIndexEntry block offset dev)
      (.ok (be32 data (12 + offset * 4))) := by
  have hread : Reads (fun c => c.Mirrors dev r.reservedBlksize) Eq
      (BlockCache.readReserved dev block r.reservedBlksize) (.ok data) := by
    have hr := @readReserved_reads dev r.reservedBlksize (fun _ => True) block trivial
    rw [h] at hr
    exact hr
  have hoff : INDEX_BLOCK_HEADER_SIZE = 12 := rfl
  refine hread.seq ?_
  dsimp only
  rw [hoff, if_neg (by omega)]
  exact reads_pure rfl

/-- A super block that is an index block: the first anode block is read as the index block that it
should name, and the word read there is 0. -/
theorem AnodeReader.reads_lost (h : r.Valid) (hlarge : r.isLarge = true)
    (hsplit : r.splitMode = true) {idxData anodeData : Bytes}
    (hsuper : r.superindex.getD 0 0 ≠ 0)
    (hidx : dev.readReserved r.reservedBlksize (r.superindex.getD 0 0) = .ok idxData)
    (hidxLen : 16 ≤ idxData.length) (hanode : be32 idxData 12 ≠ 0)
    (hread : dev.readReserved r.reservedBlksize (be32 idxData 12) = .ok anodeData)
    (hlen : 16 ≤ anodeData.length) (hzero : be32 anodeData 12 = 0) :
    Reads (fun c => c.Mirrors dev r.reservedBlksize) Eq (r.listEntries ANODE_ROOTDIR dev)
      (.error (.raise (.err (.anodeNotFound ANODE_ROOTDIR)))) := by
  have hresolve : Reads (fun c => c.Mirrors dev r.reservedBlksize) Eq (r.resolveAnodeBlock 0 dev)
      (.ok 0) := by
    have h₁ := AnodeReader.reads_indexEntry 0 hidx (by omega)
    have h₂ := AnodeReader.reads_indexEntry 0 hread (by omega)
    rw [Nat.zero_mul, Nat.add_zero] at h₁ h₂
    rw [hzero] at h₂
    unfold AnodeReader.resolveAnodeBlock
    dsimp only
    rw [if_neg h.index, if_pos hlarge, Nat.zero_div, if_neg hsuper, Nat.zero_mod, Nat.zero_div,
      Nat.zero_mod]
    refine h₁.seq ?_
    rw [if_neg hanode]
    exact h₂
  have hnr : r.splitNr ANODE_ROOTDIR = (0, 5) := by
    rw [AnodeReader.splitNr, hsplit]
    rfl
  have hget : Reads (fun c => c.Mirrors dev r.reservedBlksize) Eq (r.getAnode ANODE_ROOTDIR dev)
      (.error (.raise (.err (.anodeNotFound ANODE_ROOTDIR)))) := by
    unfold AnodeReader.getAnode
    rw [if_neg fun hz => h.anodes hz.2, hnr]
    refine hresolve.seq ?_
    rw [if_pos rfl]
    exact reads_throw
  have hchain : Reads (fun c => c.Mirrors dev r.reservedBlksize) Eq (r.getChain ANODE_ROOTDIR dev)
      (.error (.raise (.err (.anodeNotFound ANODE_ROOTDIR)))) := by
    have hmax : MAX_CHAIN_LEN = 999999 + 1 := rfl
    have heof : ¬ ANODE_ROOTDIR = ANODE_EOF := by decide
    unfold AnodeReader.getChain
    rw [hmax, AnodeReader.getChainLoop, if_neg heof, if_neg List.not_mem_nil]
    exact hget.fails
  exact hchain.fails

end Lost

namespace Format

variable {l : Layout} {totalBlocks rbs n r : ℕ} {opts : FormatOptions} {now : Datestamp}
  {d : Device} {v : Volume}

/-- Where the layout of a super mode volume puts its blocks. -/
structure SuperLayout (l : Layout) (total : ℕ) : Prop where
  mode : l.supermode = true
  cluster : 2 ≤ l.rescluster ∧ l.rescluster ≤ 8
  size : l.resblocksize = l.rescluster * 512
  rblk : 2 ≤ l.rblkcluster ∧ l.rblkcluster < 65536
  rext : l.rextBlk = 2 + l.rblkcluster
  rext_le : l.rextBlk + l.rescluster ≤ l.anidxBlk
  anode : l.anodeBlk = l.anidxBlk + l.rescluster
  top : l.anodeBlk + l.rescluster ≤ total
  rootdir : l.rootdirBlk + l.rescluster ≤ total
  total : total < 2 ^ 32

theorem Chosen.superLayout (h : Chosen totalBlocks rbs true n r l) :
    SuperLayout l (totalBlocks % U32) := by
  have hu : U32 = 2 ^ 32 := rfl
  have hs : SECTOR_SIZE = 512 := rfl
  obtain ⟨-, -, hlast⟩ := calcNumReserved_ok h.numreserved
  have hle := resbm1k_le hlast
  have hwords := words_resbm1k n
  have hcl := h.cluster
  have hroom := h.room
  have halloc := h.alloc
  have hl := h.layout
  generalize hD : totalBlocks % U32 - (l.rescluster * n + 2) = D at hl
  generalize hnb : l.bmBlocknrs.length = nb at halloc
  generalize hni : l.bmiBlocknrs.length = ni at halloc
  have hnb' : (D + (rbs / 4 - 3) * 32 - 1) / ((rbs / 4 - 3) * 32) = nb := by
    rw [← hnb, hl]
    simp [layoutOf]
  have hni' : ((D + (rbs / 4 - 3) * 32 - 1) / ((rbs / 4 - 3) * 32) + (rbs / 4 - 3) - 1) /
      (rbs / 4 - 3) = ni := by
    rw [← hni, hl]
    simp [layoutOf]
  have hrc : l.rescluster = rbs / SECTOR_SIZE := by rw [hl]; rfl
  have hsize : l.resblocksize = rbs := by rw [hl]; rfl
  have hsuper : l.supermode = true := by rw [hl]; rfl
  have hrblk : l.rblkcluster = rbs / SECTOR_SIZE * r := by rw [hl]; rfl
  have hrext : l.rextBlk = 2 + r * (rbs / SECTOR_SIZE) := by rw [hl]; rfl
  have hanidx : l.anidxBlk = 2 + (r + 1 + nb + ni) * (rbs / SECTOR_SIZE) := by
    rw [← hni', ← hnb', hl]
    rfl
  have hanode : l.anodeBlk = 2 + (r + 1 + nb + ni + 1) * (rbs / SECTOR_SIZE) := by
    rw [← hni', ← hnb', hl]
    rfl
  have hrootdir : l.rootdirBlk = 2 + (r + 1 + nb + ni + 1 + 1) * (rbs / SECTOR_SIZE) := by
    rw [← hni', ← hnb', hl]
    rfl
  have hmod : totalBlocks % U32 < U32 := Nat.mod_lt _ (by decide)
  rw [hrc] at hroom
  have hcases := blockMode_cases h.mode
  rw [hs] at *
  refine ⟨hsuper, ?_, ?_, ?_, ?_, ?_, ?_, ?_, ?_, hu ▸ hmod⟩
  all_goals rcases hcases with rfl | rfl | rfl
  all_goals simp only [hrc, hsize, hrblk, hrext, hanidx, hanode, hrootdir, Nat.reduceDiv]
  all_goals omega

/-- What opening a super mode volume reads from the rootblock. -/
theorem Laid.parseSuper (h : Laid l totalBlocks opts now d) (hl : SuperLayout l (totalBlocks % U32)) :
    ∃ rb, Rootblock.parse (d.bytesAt 2 l.rblkcluster) = .ok rb ∧ rb.isLarge = true ∧
      rb.isSplittedAnodes = true ∧ rb.reservedBlksize = l.resblocksize ∧
      rb.rblkcluster = l.rblkcluster ∧ rb.hasExtension = true ∧ rb.extension = l.rextBlk := by
  obtain ⟨img, himg, hd⟩ := h.cluster
  have hread : d.bytesAt 2 l.rblkcluster = img := hd
  have hhead := head_image himg
  have hlen := himg.length
  have hs : SECTOR_SIZE = 512 := rfl
  have hu : RB_OFF_INDEX_UNION = 0x60 := rfl
  obtain ⟨hcl₁, hcl₂⟩ := hl.cluster
  obtain ⟨hrb₁, hrb₂⟩ := hl.rblk
  have hsize := hl.size
  have htop := hl.top
  have hle := hl.rext_le
  have hanode := hl.anode
  have htotal := hl.total
  have hrext := hl.rext
  have hmagic : ¬ be32 img 0 ∉ PFS_TYPES := by rw [hhead.magic]; decide
  have hoptions := hhead.options
  rw [options, hl.mode] at hoptions
  have hext : be32 img RB_OFF_EXTENSION = l.rextBlk := by
    rw [hhead.extension]
    omega
  rw [hs] at hlen
  rw [hread]
  unfold Rootblock.parse
  rw [if_neg (by omega), if_neg hmagic]
  refine ⟨_, rfl, ?_, ?_, ?_, ?_, ?_, hext⟩
  · show (be32 img RB_OFF_OPTIONS &&& MODE_SUPERINDEX != 0) = true
    rw [hoptions]
    decide
  · show (be32 img RB_OFF_OPTIONS &&& MODE_SPLITTED_ANODES != 0) = true
    rw [hoptions]
    decide
  · refine hhead.reservedBlksize.trans ?_
    omega
  · refine hhead.rblkcluster.trans ?_
    omega
  · have hflag : (be32 img RB_OFF_OPTIONS &&& MODE_EXTENSION != 0) = true := by
      rw [hoptions]
      decide
    show ((be32 img RB_OFF_OPTIONS &&& MODE_EXTENSION != 0) && be32 img RB_OFF_EXTENSION != 0) = true
    rw [hflag, hext, Bool.true_and, bne_iff_ne]
    omega

/-- The super block that the formatter enters is the anode index block. -/
theorem Laid.superindex (h : Laid l totalBlocks opts now d)
    (hl : SuperLayout l (totalBlocks % U32)) : ∃ x,
    RootblockExt.parse (d.bytesAt l.rextBlk l.rescluster) = .ok x ∧
      x.superindex.getD 0 0 = l.anidxBlk := by
  obtain ⟨img, himg, hd⟩ := h.rext
  have hfields : rextFields l now =
      [(0x00, enc16 EXTENSIONID), (0x08, enc32 1), (0x0C, enc32 0x00130002), (0x10, enc16 now.day),
       (0x12, enc16 now.minute), (0x14, enc16 now.tick), (0x38, enc16 32),
       (0x40, enc32 l.anidxBlk)] := by
    rw [rextFields, hl.mode]
    rfl
  rw [hfields] at himg
  have hlen := himg.length
  have hcl := hl.cluster
  have hsize := hl.size
  have htop := hl.top
  have hanode := hl.anode
  have htotal := hl.total
  have hid : be16 img 0 = EXTENSIONID := himg.get_be16 0 rfl (by simp)
  have hword : be32 img 0x40 = l.anidxBlk % 2 ^ 32 := himg.get_be32 7 rfl (by simp)
  rw [hd, RootblockExt.parse, if_neg (by omega), if_neg (by rw [hid]; exact fun h => h rfl)]
  refine ⟨_, rfl, ?_⟩
  show (readWords img 0x40 (MAXSUPER + 1)).getD 0 0 = _
  rw [getD_readWords (by decide) (by omega), Nat.zero_mul, Nat.add_zero, hword]
  omega

/-- On a volume formatted in super mode the root directory cannot be listed. -/
theorem Laid.lost (h : Laid l totalBlocks opts now d) (hl : SuperLayout l (totalBlocks % U32))
    (htotal : totalBlocks ≤ d.total) (hopen : Volume.fromDevice d = .ok v) :
    v.answer (Volume.listDir ['/']) = .error (.anodeNotFound ANODE_ROOTDIR) := by
  obtain ⟨rb, hparse, hlarge, hsplit, hrbs, hcluster, hhas, hext⟩ := h.parseSuper hl
  obtain ⟨x, hx, hsuper⟩ := h.superindex hl
  have hvalid := Volume.opened_of_fromDevice hopen
  obtain ⟨hcl₁, hcl₂⟩ := hl.cluster
  obtain ⟨hrb₁, hrb₂⟩ := hl.rblk
  have hsize := hl.size
  have htop := hl.top
  have hle := hl.rext_le
  have hanodeBlk := hl.anode
  have hrext := hl.rext
  have hmod : totalBlocks % U32 ≤ totalBlocks := Nat.mod_le _ _
  have hs : SECTOR_SIZE = 512 := rfl
  -- a reserved block on the device
  have hreserved : ∀ b, b + l.rescluster ≤ totalBlocks →
      d.readReserved l.resblocksize b = .ok (d.bytesAt b l.rescluster) := by
    intro b hb
    have hmax : max (l.resblocksize / SECTOR_SIZE) 1 = l.rescluster := by
      rw [hsize, hs]
      omega
    rw [Device.readReserved, hmax, hsize]
    exact Device.readBlocks_ok (by omega)
  have hv : v.dev = d ∧ v.rootblock = rb ∧ v.anodes = .new rb (some x) := by
    have hfirst : d.readBlock ROOTBLOCK = .ok (d.bytesAt 2 1) := by
      have hread : d.readBlocks 2 1 (1 * 512) = .ok (d.bytesAt 2 1) :=
        Device.readBlocks_ok (by omega)
      exact hread
    have hparse₁ : Rootblock.parse (d.bytesAt 2 1) = .ok rb := by
      rw [← d.take_bytesAt 2 (by omega : 0 < l.rblkcluster),
        parse_take (by rw [d.length_bytesAt]; omega), hparse]
    have hread : d.readBlocks ROOTBLOCK rb.rblkcluster (rb.rblkcluster * 512) =
        .ok (d.bytesAt 2 l.rblkcluster) := by
      rw [hcluster]
      exact Device.readBlocks_ok (by simp only [ROOTBLOCK]; omega)
    have hrbsOk : Volume.validateRbs rb = .ok () := by
      rw [Volume.validateRbs, if_neg (by omega)]
    have hblock := @readReserved_reads d l.resblocksize (fun _ => True) l.rextBlk trivial
    rw [hreserved _ (by omega)] at hblock
    obtain ⟨_, c, hblock, rfl, -⟩ := hblock.ok coherent_new
    unfold Volume.fromDevice at hopen
    rw [hfirst, ok_bind, hparse₁, ok_bind, if_pos (by omega), hread, ok_bind, hparse] at hopen
    simp only [ok_bind, hrbsOk, hhas, if_true, hrbs, hext, hblock, hx] at hopen
    cases hopen
    exact ⟨rfl, rfl, rfl⟩
  obtain ⟨rfl, rfl, hanodes⟩ := hv
  obtain ⟨idx, hidx, hidxAt⟩ := h.anidx
  obtain ⟨an, han, hanAt⟩ := h.anode
  have hidxLen := hidx.length
  have hanLen := han.length
  have hentry : be32 idx 12 = l.anodeBlk := by
    have hget : be32 idx 12 = l.anodeBlk % 2 ^ 32 := hidx.get_be32 3 rfl
      fun p hp => absurd (show p ∈ [] from hp) List.not_mem_nil
    have htot := hl.total
    rw [hget]
    omega
  have hzero : be32 an 12 = 0 := by
    have hgap := han.gap (i := 12) (n := 4) (by
      simp [anodeFields, ANODE_BLOCK_HEADER_SIZE, ANODE_ROOTDIR, ANODE_SIZE, enc16, enc32]) (by omega)
    rw [be32_take, hgap]
    rfl
  have hrbsA : v.anodes.reservedBlksize = l.resblocksize := hvalid.anodesRbs.trans hrbs
  have hindex : v.anodes.superindex.getD 0 0 = l.anidxBlk := by
    rw [hanodes]
    exact hsuper
  have hlost := AnodeReader.reads_lost hvalid.anodes (by rw [hanodes]; exact hlarge)
    (by rw [hanodes]; exact hsplit) (by omega)
    (by rw [hrbsA, hindex, hreserved _ (by omega), hidxAt]) (by omega) (by omega)
    (by rw [hrbsA, hentry, hreserved _ (by omega), hanAt]) (by omega) hzero
  rw [hvalid.anodesRbs] at hlost
  obtain ⟨c, hrun, -⟩ := hlost.raise hvalid.cache
  have hlist : Volume.listDir ['/'] v = .error (.err (.anodeNotFound ANODE_ROOTDIR))
      { v with cache := c } := by
    have hcall : Volume.listDir ['/'] v = Volume.onCache (v.anodes.listEntries ANODE_ROOTDIR) v := rfl
    rw [hcall]
    simp only [Volume.onCache, zoom, hrun]
  simp only [Volume.answer, hlist]

end Format

/-- A volume that agrees with its format was formatted in small mode. -/
theorem AgreesWithFormat.small {d d' : Device} {totalBlocks : ℕ} {opts : FormatOptions}
    {now : Datestamp} {res : FormatResult} {v : Volume} (h : AgreesWithFormat v totalBlocks opts res)
    (hformat : Format.formatWithSize totalBlocks opts now d = .ok res d') (hsound : d.Sound)
    (htotal : totalBlocks ≤ d.total) (hopen : Volume.fromDevice d' = .ok v) :
    totalBlocks ≤ Format.MAXSMALLDISK := by
  obtain ⟨rbs, supermode, n, r, l, hchosen, hlaid, htot, -⟩ :=
    Format.of_format hformat hsound htotal
  by_contra hlarge
  have hsuper : supermode = true := by
    have hmode := hchosen.mode
    rw [Format.blockMode, if_pos (by omega)] at hmode
    cases hmode
    rfl
  subst hsuper
  have hlost := hlaid.lost hchosen.superLayout (htot ▸ htotal) hopen
  rw [h.empty] at hlost
  cases hlost

/-- After a successful format the volume opens and agrees with it exactly in small mode. -/
theorem format_agrees_iff {d d' : Device} {totalBlocks : ℕ} {opts : FormatOptions}
    {now : Datestamp} {res : FormatResult}
    (hformat : Format.formatWithSize totalBlocks opts now d = .ok res d') (hsound : d.Sound)
    (htotal : totalBlocks ≤ d.total) (hascii : ∀ c ∈ opts.volumeName, c.toNat < 128)
    (hlen : opts.volumeName.length ≤ 30) :
    (∃ v, Volume.fromDevice d' = .ok v ∧ AgreesWithFormat v totalBlocks opts res) ↔
      totalBlocks ≤ Format.MAXSMALLDISK := by
  constructor
  · rintro ⟨v, hopen, hagrees⟩
    exact hagrees.small hformat hsound htotal hopen
  · intro hsmall
    obtain ⟨g, rfl, hdata, hfresh⟩ := Format.fresh_of_format hformat hsound htotal hsmall
    exact hfresh.agrees hdata hascii hlen

def smallestVolume : Evaluated (smallSession []) fun _ => true :=
  .of (by decide +kernel)

/-- The smallest volume. -/
theorem format_agrees_smallest : ∃ res d', Format.formatWithSize 67 ⟨['v'], false⟩ ⟨0, 0, 0⟩
    (blankDevice 67) = .ok res d' ∧
    ∃ v, Volume.fromDevice d' = .ok v ∧ AgreesWithFormat v 67 ⟨['v'], false⟩ res := by
  obtain ⟨w, hrun, -⟩ := smallestVolume
  obtain ⟨res, d', -, -, hformat, -⟩ := of_session hrun
  have hascii : ∀ c ∈ ['v'], c.toNat < 128 := fun c hc => by
    rw [List.mem_singleton.mp hc]
    decide
  exact ⟨res, d', hformat, (format_agrees_iff hformat (sound_blankDevice 67) le_rfl hascii
    (by decide)).mpr (by decide)⟩

/-! ### A format in super mode succeeds -/

/-- The run from `s` ends without an error. -/
def Succeeds {ε σ α : Type} (m : EStateM ε σ α) (s : σ) : Prop := ∃ a s', m s = .ok a s'

theorem Succeeds.seq {ε σ α β : Type} {m : EStateM ε σ α} {k : α → EStateM ε σ β} {s : σ}
    (a : α) (s₁ : σ) (h : m s = .ok a s₁) (hk : Succeeds (k a) s₁) : Succeeds (m >>= k) s := by
  obtain ⟨b, s', hrun⟩ := hk
  exact ⟨b, s', (bind_of_ok h).trans hrun⟩

namespace Format

theorem image_ok {size : ℕ} {fields : List (ℕ × Bytes)} (h : Ascending size 0 fields) :
    ∃ img, putAll fields (List.replicate size 0) = .ok img ∧ img.length = size := by
  obtain ⟨n, hok, hn⟩ := @putAll_fill size fields [] h
  rw [List.nil_append, List.length_nil, Nat.sub_zero] at hok
  exact ⟨_, hok, by rw [List.length_append, List.length_replicate, hn]⟩

theorem writeImage_ok (l : Layout) (b : ℕ) (fields : List (ℕ × Bytes)) {d : Device}
    (hasc : Ascending l.resblocksize 0 fields) (hd : d.Sound)
    (hsize : l.resblocksize = l.rescluster * 512) (hb : b + l.rescluster ≤ d.total) :
    ∃ d', writeImage l b fields d = .ok () d' ∧ d'.Sound ∧ d'.total = d.total := by
  obtain ⟨img, himg, hlen⟩ := image_ok hasc
  obtain ⟨d', hwrite, hwrote⟩ := Device.writeReservedBlocks_wrote hd hb (hlen.trans hsize)
  refine ⟨d', ?_, hwrote.sound, hwrote.total⟩
  unfold writeImage
  rw [himg]
  exact hwrite

theorem writeImages_ok (l : Layout) (fields : ℕ → List (ℕ × Bytes))
    (hasc : ∀ seq, Ascending l.resblocksize 0 (fields seq))
    (hsize : l.resblocksize = l.rescluster * 512) (blks : List ℕ) : ∀ (seq : ℕ) {d : Device},
    d.Sound → (∀ b ∈ blks, b + l.rescluster ≤ d.total) →
    ∃ d', writeImages l fields seq blks d = .ok () d' ∧ d'.Sound ∧ d'.total = d.total := by
  induction blks with
  | nil => exact fun _ d hd _ => ⟨d, rfl, hd, rfl⟩
  | cons b blks ih =>
      intro seq d hd hb
      obtain ⟨d₁, hrun, hd₁, ht₁⟩ := writeImage_ok l b (fields seq) (hasc seq) hd hsize (hb b List.mem_cons_self)
      obtain ⟨d₂, hrun₂, hd₂, ht₂⟩ := ih (seq + 1) hd₁ fun c hc =>
        ht₁ ▸ hb c (List.mem_cons_of_mem b hc)
      exact ⟨d₂, (bind_of_ok hrun).trans hrun₂, hd₂, ht₂.trans ht₁⟩

theorem ascending_clusterFields {l : Layout} (totalBlocks : ℕ) (opts : FormatOptions)
    (now : Datestamp) (hmode : l.supermode = true) (hbmi : l.bmiBlocknrs.length ≤ 104)
    (hrblk : 2 ≤ l.rblkcluster) :
    Ascending (l.rblkcluster * SECTOR_SIZE) 0 (clusterFields l totalBlocks opts now) := by
  have hs : SECTOR_SIZE = 512 := rfl
  have hname : ((asBytes opts.volumeName).take 30).length ≤ 30 := List.length_take_le _ _
  have hbmilen : (l.bmiBlocknrs.flatMap enc32).length = l.bmiBlocknrs.length * 4 := by
    simp [List.length_flatMap]
  have hwords : ((l.alloc.buildBitmap.take ((l.rblkcluster * 512 - (512 + 12)) / 4)).flatMap
      fun w => enc32 w.toNat).length ≤ (l.rblkcluster * 512 - (512 + 12)) / 4 * 4 := by
    rw [length_flatMap_words, List.length_take]
    omega
  unfold clusterFields
  rw [hmode, hs]
  simp only [if_true, Ascending, List.cons_append, List.nil_append, length_enc32, length_enc16,
    List.length_singleton, hbmilen]
  omega

/-- The two tables lie before the anode index block. -/
theorem Chosen.tables {l : Layout} {totalBlocks rbs n r : ℕ} (h : Chosen totalBlocks rbs true n r l) :
    ∀ b ∈ l.bmBlocknrs ++ l.bmiBlocknrs, b + l.rescluster ≤ l.anidxBlk := by
  have hl := h.layout
  generalize totalBlocks % U32 - (l.rescluster * n + 2) = D at hl
  have hrc : l.rescluster = rbs / SECTOR_SIZE := by rw [hl]; rfl
  have hanidx : l.anidxBlk = blkOf l.rescluster (r + 1 + l.bmBlocknrs.length +
      l.bmiBlocknrs.length) := by
    rw [hl]
    simp [layoutOf]
  have hblk : ∀ j, j < r + 1 + l.bmBlocknrs.length + l.bmiBlocknrs.length →
      blkOf l.rescluster j + l.rescluster ≤ l.anidxBlk := by
    intro j hj
    have hle := Nat.mul_le_mul_right l.rescluster (Nat.succ_le_of_lt hj)
    rw [Nat.succ_mul] at hle
    rw [hanidx, blkOf, blkOf]
    omega
  intro b hb
  have hbm : l.bmBlocknrs = (List.range' (r + 1) l.bmBlocknrs.length).map (blkOf l.rescluster) := by
    rw [hl]
    simp [layoutOf]
  have hbmi : l.bmiBlocknrs = (List.range' (r + 1 + l.bmBlocknrs.length)
      l.bmiBlocknrs.length).map (blkOf l.rescluster) := by
    rw [hl]
    simp [layoutOf]
  rcases List.mem_append.mp hb with hb | hb
  · rw [hbm] at hb
    obtain ⟨j, hj, rfl⟩ := List.mem_map.mp hb
    have hrange := List.mem_range'_1.mp hj
    exact hblk j (by omega)
  · rw [hbmi] at hb
    obtain ⟨j, hj, rfl⟩ := List.mem_map.mp hb
    have hrange := List.mem_range'_1.mp hj
    exact hblk j (by omega)

/-- The writes of a format in super mode. -/
theorem writes_ok {l : Layout} {total : ℕ} {d : Device} (totalBlocks D : ℕ) (opts : FormatOptions)
    (now : Datestamp) (res : FormatResult) (hl : SuperLayout l total) (hd : d.Sound)
    (htotal : total ≤ d.total) (hbmi : l.bmiBlocknrs.length ≤ 104)
    (htables : ∀ b ∈ l.bmBlocknrs ++ l.bmiBlocknrs, b + l.rescluster ≤ l.anidxBlk)
    (hipb : l.indexPerBlock = l.resblocksize / 4 - 3)
    (hpanic : (D + l.indexPerBlock * 32 - 1) / (l.indexPerBlock * 32) * (l.indexPerBlock * 32) ≤
      U32) :
    Succeeds (do
      let rbData ← putAll (clusterFields l totalBlocks opts now)
        (List.replicate (l.rblkcluster * SECTOR_SIZE) 0)
      (List.range l.rblkcluster).forM fun i =>
        Device.writeBlock (firstreserved + i) (Sector.ofBytes (rbData.drop (i * SECTOR_SIZE))).val
      writeImage l l.rextBlk (rextFields l now)
      writeImages l (bmiFields l) 0 l.bmiBlocknrs
      if U32 < (D + l.indexPerBlock * 32 - 1) / (l.indexPerBlock * 32) *
        (l.indexPerBlock * 32) then throw .panic
      writeImages l (bmFields l) 0 l.bmBlocknrs
      writeImage l l.anidxBlk (anidxFields l)
      writeImage l l.anodeBlk (anodeFields l)
      writeImage l l.rootdirBlk rootdirFields
      Device.flush
      pure res : EStateM Fault Device FormatResult) d := by
  have hs : SECTOR_SIZE = 512 := rfl
  have hfirst : firstreserved = 2 := rfl
  obtain ⟨hcl₁, hcl₂⟩ := hl.cluster
  obtain ⟨hrb₁, hrb₂⟩ := hl.rblk
  have hsize := hl.size
  have htop := hl.top
  have hle := hl.rext_le
  have hanode := hl.anode
  have hrext := hl.rext
  have hrootdir := hl.rootdir
  obtain ⟨rbData, hput, hlen⟩ := image_ok (ascending_clusterFields totalBlocks opts now hl.mode hbmi
    hrb₁)
  rw [hput]
  refine Succeeds.seq rbData d rfl ?_
  have hforM := Device.forM_writeBlock hd (b := firstreserved) (n := l.rblkcluster) (by omega)
    fun i => Sector.ofBytes (rbData.drop (i * SECTOR_SIZE))
  have hw₀ := Device.wrote_putRange hd firstreserved hlen
  refine Succeeds.seq _ _ hforM ?_
  generalize d.putRange firstreserved (fun i => Sector.ofBytes (rbData.drop (i * SECTOR_SIZE)))
    l.rblkcluster = d₀ at hw₀
  have ht₀ := hw₀.total
  obtain ⟨d₁, hrun₁, hd₁, ht₁⟩ := writeImage_ok l l.rextBlk
    (rextFields l now) (by rw [rextFields, hl.mode]; simp [Ascending, enc16]; omega)
    hw₀.sound hsize (by omega)
  refine Succeeds.seq _ _ hrun₁ ?_
  obtain ⟨d₂, hrun₂, hd₂, ht₂⟩ := writeImages_ok l (bmiFields l) (fun seq => by
    simp [bmiFields, Ascending, List.length_flatMap, enc16]; omega) hsize l.bmiBlocknrs 0 hd₁
    fun b hb => by
      have := htables b (List.mem_append_right _ hb)
      omega
  refine Succeeds.seq _ _ hrun₂ ?_
  rw [if_neg (by omega)]
  obtain ⟨d₃, hrun₃, hd₃, ht₃⟩ := writeImages_ok l (bmFields l) (fun seq => by
    simp [bmFields, Ascending, List.length_flatMap, enc16]; omega) hsize l.bmBlocknrs 0 hd₂
    fun b hb => by
      have := htables b (List.mem_append_left _ hb)
      omega
  refine Succeeds.seq _ _ hrun₃ ?_
  obtain ⟨d₄, hrun₄, hd₄, ht₄⟩ := writeImage_ok l l.anidxBlk
    (anidxFields l) (by simp [anidxFields, Ascending, enc16]; omega) hd₃ hsize (by omega)
  refine Succeeds.seq _ _ hrun₄ ?_
  obtain ⟨d₅, hrun₅, hd₅, ht₅⟩ := writeImage_ok l l.anodeBlk
    (anodeFields l) (by
      simp [anodeFields, Ascending, ANODE_BLOCK_HEADER_SIZE, ANODE_ROOTDIR, ANODE_SIZE, enc16]
      omega) hd₄ hsize (by omega)
  refine Succeeds.seq _ _ hrun₅ ?_
  obtain ⟨d₆, hrun₆, hd₆, ht₆⟩ := writeImage_ok l l.rootdirBlk
    rootdirFields (by simp [rootdirFields, Ascending, enc16]; omega) hd₅ hsize (by omega)
  refine Succeeds.seq _ _ hrun₆ ?_
  exact ⟨_, _, rfl⟩

/-- A format in super mode whose layout has room for everything. -/
theorem ok_of_room {totalBlocks rbs n r : ℕ} {l : Layout} (opts : FormatOptions) (now : Datestamp)
    {d : Device} (hmode : blockMode totalBlocks = (rbs, true))
    (hn : calcNumReserved totalBlocks rbs = .ok n)
    (hr : (1024 * resbm1k n + rbs - 1) / rbs = r)
    (hl : l = layoutOf rbs true n r (totalBlocks % U32 - (rbs / SECTOR_SIZE * n + 2)))
    (hroom : rbs / SECTOR_SIZE * n + 2 < totalBlocks % U32)
    (halloc : r + 4 + l.bmBlocknrs.length + l.bmiBlocknrs.length ≤ n)
    (hbmi : l.bmiBlocknrs.length ≤ 104)
    (hpanic : l.bmBlocknrs.length * (l.indexPerBlock * 32) ≤ U32) (hd : d.Sound)
    (htotal : totalBlocks ≤ d.total) :
    Succeeds (formatWithSize totalBlocks opts now) d := by
  have hs : SECTOR_SIZE = 512 := rfl
  have hfirst : firstreserved = 2 := rfl
  have hchosen : Chosen totalBlocks rbs true n r l := by
    have hrc : l.rescluster = rbs / SECTOR_SIZE := by rw [hl]; rfl
    exact ⟨hmode, hn, hr.symm, hrc ▸ hroom, hrc ▸ hl, halloc⟩
  have hsuper := hchosen.superLayout
  have hrbs := blockMode_cases hmode
  have harea : rbs / SECTOR_SIZE * n + firstreserved - 1 - firstreserved + 1 + firstreserved =
      rbs / SECTOR_SIZE * n + 2 := by
    have hn32 := calcNumReserved_ok hn
    rcases hrbs with rfl | rfl | rfl <;> rw [hs, hfirst] <;> omega
  -- the sizes of the two tables
  have hnb : (totalBlocks % U32 - (rbs / SECTOR_SIZE * n + 2) + (rbs / 4 - 3) * 32 - 1) /
      ((rbs / 4 - 3) * 32) = l.bmBlocknrs.length := by
    rw [hl]
    simp [layoutOf]
  have hni : (l.bmBlocknrs.length + (rbs / 4 - 3) - 1) / (rbs / 4 - 3) = l.bmiBlocknrs.length := by
    rw [← hnb, hl]
    simp [layoutOf]
  have hipb : l.indexPerBlock = rbs / 4 - 3 := by rw [hl]; rfl
  have hmod : totalBlocks % U32 ≤ totalBlocks := Nat.mod_le _ _
  generalize hnbl : l.bmBlocknrs.length = nb at *
  generalize hnil : l.bmiBlocknrs.length = ni at *
  have hlast : r + 1 + nb + ni + 1 + 1 + 1 ≤ n := by omega
  obtain ⟨d₁, hboot₀, hw₀⟩ := Device.writeBlocks_ok (b := 0) (n := 1) hd (by omega)
    (show (enc32 ID_PFS_DISK ++ List.replicate (SECTOR_SIZE - 4) 0).length = 1 * 512 by
      rw [List.length_append, List.length_replicate, hs]; rfl)
  obtain ⟨d₂, hboot₁, hw₁⟩ := Device.writeBlocks_ok (b := 1) (n := 1) hw₀.sound
    (by rw [hw₀.total]; omega)
    (show (List.replicate SECTOR_SIZE (0 : UInt8)).length = 1 * 512 by
      rw [List.length_replicate, hs])
  have ht₂ := hw₁.total.trans hw₀.total
  unfold formatWithSize
  rw [hmode]
  dsimp only
  rw [hn]
  refine Succeeds.seq n d rfl ?_
  rw [hr, new_eq (by omega), alloc_allocatorAt (by omega)]
  refine Succeeds.seq ((r, allocatorAt n (r + 1))) d rfl ?_
  dsimp only
  rw [harea, if_neg (by omega), hnb, hni]
  refine Succeeds.seq (()) d₁ hboot₀ (Succeeds.seq (()) d₂ hboot₁ ?_)
  rw [allocMany_ok nb (by omega)]
  refine Succeeds.seq ((List.range' (r + 1) nb, allocatorAt n (r + 1 + nb))) d₂ rfl ?_
  dsimp only
  rw [allocMany_ok ni (by omega)]
  refine Succeeds.seq ((List.range' (r + 1 + nb) ni, allocatorAt n (r + 1 + nb + ni))) d₂
    rfl ?_
  dsimp only
  rw [alloc_allocatorAt (by omega)]
  refine Succeeds.seq ((r + 1 + nb + ni, allocatorAt n (r + 1 + nb + ni + 1))) d₂ rfl ?_
  dsimp only
  rw [alloc_allocatorAt (by omega)]
  refine Succeeds.seq ((r + 1 + nb + ni + 1, allocatorAt n (r + 1 + nb + ni + 1 + 1))) d₂
    rfl ?_
  dsimp only
  rw [alloc_allocatorAt (by omega)]
  refine Succeeds.seq ((r + 1 + nb + ni + 1 + 1, allocatorAt n (r + 1 + nb + ni + 1 + 1 + 1)))
    d₂ rfl ?_
  have hwrites := writes_ok totalBlocks
    (totalBlocks % U32 - (rbs / SECTOR_SIZE * n + 2)) opts now
      { volumeName := opts.volumeName, totalBlocks,
        dataBlocks := totalBlocks % U32 - (rbs / SECTOR_SIZE * n + 2),
        blocksFree := totalBlocks % U32 - (rbs / SECTOR_SIZE * n + 2),
        numReserved := n, reservedBlksize := rbs } hsuper hw₁.sound (by omega) (by omega)
    hchosen.tables (by rw [hl]; rfl) (by rw [hipb, hnb]; exact hipb ▸ hpanic)
  subst hni hnb
  rw [hl] at hwrites
  exact hwrites

end Format

/-- The smallest volume in super mode: it can be formatted, but it does not agree with its format. -/
theorem format_super : ∃ res d', Format.formatWithSize 10241441 ⟨['v'], false⟩ ⟨0, 0, 0⟩
    (blankDevice 10241441) = .ok res d' ∧
    ¬ ∃ v, Volume.fromDevice d' = .ok v ∧ AgreesWithFormat v 10241441 ⟨['v'], false⟩ res := by
  have hn : Format.calcNumReserved 10241441 1024 = .ok 103040 := by decide +kernel
  have hr : (1024 * Format.resbm1k 103040 + 1024 - 1) / 1024 = 14 := by decide +kernel
  obtain ⟨res, d', hformat⟩ := @Format.ok_of_room 10241441 1024 103040 14 _
    ⟨['v'], false⟩ ⟨0, 0, 0⟩ _ (by decide) hn hr rfl (by decide)
    (by simp [Format.layoutOf, SECTOR_SIZE, U32]) (by simp [Format.layoutOf, SECTOR_SIZE, U32])
    (by simp [Format.layoutOf, SECTOR_SIZE, U32]) (sound_blankDevice 10241441) le_rfl
  refine ⟨res, d', hformat, ?_⟩
  rintro ⟨v, hopen, hagrees⟩
  have hsmall := hagrees.small hformat (sound_blankDevice 10241441) le_rfl hopen
  have hmax : Format.MAXSMALLDISK = 10241440 := rfl
  omega

end Pfs3
