import Pfs3.Store.Cache
import Pfs3.Store.DirImage

/-!
# Representation

When a device holds the content of a structured store, and when a writer's memory and queue
stand for one.  Both use the same predicate on block contents: `Represents` for what the
device holds, and for what it will hold once the queue of pending writes is written.
-/

namespace Pfs3

open ByteList BlockCache

/-! ## Well-formed content -/

/-- Anode blocks and directory blocks are separate dynamic blocks, and the bitmap has no free
bit behind the data area. -/
structure Meta.Wf (g : Geometry) (m : Meta) : Prop where
  indexed : ∀ s, m.index s ≠ 0 → s < 253 ∧ g.IsDynamic (m.index s)
  inj : ∀ s t, m.index s ≠ 0 → m.index s = m.index t → s = t
  dir : ∀ b d, m.dir b = some d → d.Fits ∧ g.IsDynamic b ∧ ∀ s, m.index s ≠ b
  free : ∀ r, m.free r = true → r < g.dataBlocks

/-- The blocks that `read` returns hold the content `m`. -/
structure Represents (g : Geometry) (read : ℕ → Bytes) (m : Meta) : Prop where
  index : ∃ ds, read g.anidx = indexImage ds m.index
  anodes : ∀ s, m.index s ≠ 0 → ∃ ds, read (m.index s) = anodeImage ds s m.slot
  dirs : ∀ b d, m.dir b = some d → ∃ ds, read b = dirImage ds d
  bitmap : ∀ i < g.noBmb, ∃ ds, read (g.bm i) = bitmapImage ds i m.free
  bmi : ∀ i < g.noBmi, (read (g.bmi i)).length = 1024 ∧
    ∀ j < 253, be32 (read (g.bmi i)) (12 + j * 4) =
      if i * 253 + j < g.noBmb then g.bm (i * 253 + j) else 0

/-! ## Geometry facts -/

namespace Geometry

variable (g : Geometry)

theorem blockAt_inj {j k : ℕ} (h : blockAt j = blockAt k) : j = k := by
  simp only [blockAt] at h
  omega

theorem blockAt_lt {k : ℕ} (h : k < g.numreserved) : blockAt k + 2 ≤ g.dataStart := by
  simp only [blockAt, dataStart]
  omega

theorem dataStart_lt : g.dataStart < g.disksize := g.data

theorem disksize_lt : g.disksize < 2 ^ 25 := by
  have h := g.small
  have hs : Format.MAXSMALLDISK = 10241440 := rfl
  omega

theorem dataBlocks_eq : g.dataBlocks = g.disksize - (2 * g.numreserved + 2) := rfl

theorem base_add_two_le : g.base + 2 ≤ g.numreserved := by
  have h := g.layout
  simp only [base, noBmb, noBmi, dataBlocks_eq]
  omega

theorem noBmb_le : g.noBmb ≤ 5 * 253 := by
  have h := g.small
  have hs : Format.MAXSMALLDISK = 10241440 := rfl
  simp only [noBmb, bitmapBlocks, dataBlocks_eq]
  omega

theorem noBmi_le : g.noBmi ≤ 5 := by
  have h := g.noBmb_le
  have he : g.noBmi = (g.noBmb + 252) / 253 := rfl
  omega

theorem noBmb_le_noBmi : g.noBmb ≤ g.noBmi * 253 := by
  have he : g.noBmi = (g.noBmb + 252) / 253 := rfl
  omega

theorem dataBlocks_le : g.dataBlocks ≤ g.noBmb * 8096 := by
  simp only [noBmb, bitmapBlocks]
  omega

variable {g}

theorem IsDynamic.add_two_le {b : ℕ} (h : g.IsDynamic b) : b + 2 ≤ g.dataStart := by
  obtain ⟨k, -, hk, rfl⟩ := h
  exact g.blockAt_lt hk

theorem IsDynamic.pos {b : ℕ} (h : g.IsDynamic b) : b ≠ 0 := by
  obtain ⟨k, -, -, rfl⟩ := h
  simp only [blockAt]
  omega

theorem IsDynamic.ne_anidx {b : ℕ} (h : g.IsDynamic b) : b ≠ g.anidx := by
  obtain ⟨k, hk, -, rfl⟩ := h
  simp only [base] at hk
  simp only [anidx, blockAt]
  omega

theorem IsDynamic.ne_bm {b i : ℕ} (h : g.IsDynamic b) (hi : i < g.noBmb) : b ≠ g.bm i := by
  obtain ⟨k, hk, -, rfl⟩ := h
  simp only [base] at hk
  simp only [bm, blockAt]
  omega

theorem IsDynamic.ne_bmi {b i : ℕ} (h : g.IsDynamic b) (hi : i < g.noBmi) : b ≠ g.bmi i := by
  obtain ⟨k, hk, -, rfl⟩ := h
  simp only [base] at hk
  simp only [bmi, blockAt]
  omega

theorem IsDynamic.ne_rext {b : ℕ} (h : g.IsDynamic b) : b ≠ g.rext := by
  obtain ⟨k, hk, -, rfl⟩ := h
  simp only [base] at hk
  simp only [rext, blockAt]
  omega

variable (g)

/-- The blocks that may stand in the queue of pending writes. -/
def IsQueued (b : ℕ) : Prop := g.IsDynamic b ∨ b = g.anidx ∨ ∃ i < g.noBmb, b = g.bm i

/-- Every block with a meaning is `blockAt k` for some `k` behind the rootblock cluster. -/
def IsReserved (b : ℕ) : Prop := ∃ k, g.resbm ≤ k ∧ k < g.numreserved ∧ b = blockAt k

theorem anidx_isReserved : g.IsReserved g.anidx :=
  ⟨_, by omega, by have h := g.base_add_two_le; simp only [base] at h; omega, rfl⟩

theorem bm_isReserved {i : ℕ} (hi : i < g.noBmb) : g.IsReserved (g.bm i) :=
  ⟨_, by omega, by have h := g.base_add_two_le; simp only [base] at h; omega, rfl⟩

theorem bmi_isReserved {i : ℕ} (hi : i < g.noBmi) : g.IsReserved (g.bmi i) :=
  ⟨_, by omega, by have h := g.base_add_two_le; simp only [base] at h; omega, rfl⟩

theorem rext_isReserved : g.IsReserved g.rext :=
  ⟨_, by omega, by have h := g.base_add_two_le; simp only [base] at h; omega, rfl⟩

variable {g}

theorem IsDynamic.isReserved {b : ℕ} (h : g.IsDynamic b) : g.IsReserved b := by
  obtain ⟨k, hk, hk', rfl⟩ := h
  exact ⟨k, by simp only [base] at hk; omega, hk', rfl⟩

theorem IsQueued.isReserved {b : ℕ} (h : g.IsQueued b) : g.IsReserved b := by
  rcases h with h | rfl | ⟨i, hi, rfl⟩
  · exact h.isReserved
  · exact g.anidx_isReserved
  · exact g.bm_isReserved hi

theorem IsReserved.add_two_le {b : ℕ} (h : g.IsReserved b) : b + 2 ≤ g.dataStart := by
  obtain ⟨k, -, hk, rfl⟩ := h
  exact g.blockAt_lt hk

theorem IsReserved.lt {b : ℕ} (h : g.IsReserved b) : b < 2 ^ 25 := by
  have h₁ := h.add_two_le
  have h₂ := g.dataStart_lt
  have h₃ := g.disksize_lt
  omega

end Geometry

/-! ## Volumes -/

/-- The rootblock of a small-mode volume with the layout `g`. -/
structure Geometry.SmallRb (g : Geometry) (rb : Rootblock) : Prop where
  large : rb.isLarge = false
  split : rb.isSplittedAnodes = true
  deldir : rb.hasFlag MODE_DELDIR = false
  rbs : rb.reservedBlksize = 1024
  first : rb.firstreserved = 2
  last : rb.lastreserved = 2 * g.numreserved + 1
  cluster : rb.rblkcluster = 2 * g.resbm
  disksize : rb.disksize = g.disksize
  bitmapindex : ∀ i, rb.bitmapindex.getD i 0 = if i < g.noBmi then g.bmi i else 0
  indexblocks : ∀ i, rb.indexblocks.getD i 0 = if i = 0 then g.anidx else 0

/-- A volume whose device holds the content `m` and, in the data area, the sectors `data`. -/
structure VolRep (v : Volume) (g : Geometry) (m : Meta) (data : ℕ → Sector) : Prop where
  rb : g.SmallRb v.rootblock
  ext : ∃ x, v.rootblockExt = some x ∧ ∀ b ∈ x.deldirblocks, b = 0
  anodes : v.anodes = .new v.rootblock v.rootblockExt
  bitmap : v.bitmap = .new v.rootblock
  cache : v.cache.Coherent v.dev 1024 g.IsReserved
  content : Represents g (fun b => v.dev.bytesAt b 2) m
  wf : m.Wf g
  data : ∀ b, g.dataStart ≤ b → b < g.disksize → v.dev.sectors b = data b
  total : g.disksize ≤ v.dev.total

/-- The content of a block once the queue is written. -/
def Writer.overlay (w : Writer) (b : ℕ) : Bytes :=
  (w.pendingWrites.lookup b).getD (w.vol.dev.bytesAt b 2)

/-- What opening the device reads from the rootblock cluster and the extension. -/
structure RootRep (g : Geometry) (dev : Device) (root : Root) : Prop where
  parse : ∃ rb, Rootblock.parse (dev.bytesAt 2 (2 * g.resbm)) = .ok rb ∧ g.SmallRb rb ∧
    rb.hasExtension = true ∧ rb.extension = g.rext ∧ rb.datestamp = root.datestamp ∧
    rb.blocksfree = root.blocksfree ∧ rb.reservedFree = root.reservedFree
  ext : ∃ x, RootblockExt.parse (dev.bytesAt g.rext 2) = .ok x ∧ ∀ b ∈ x.deldirblocks, b = 0
  words : (readWords (dev.bytesAt 2 (2 * g.resbm)) (SECTOR_SIZE + 12)
      (256 * g.resbm - 131)).map (BitVec.ofNat 32) =
    BitRun.words root.resFree 0 (256 * g.resbm - 131)
  resFree : ∀ k, root.resFree k = true → k < g.numreserved

/-- The writer `w` stands for the store `S`. -/
structure Rep (g : Geometry) (w : Writer) (S : Store) : Prop where
  geo : S.geo = g
  vol : VolRep w.vol S.geo S.disk S.data
  resblocksize : w.resblocksize = 1024
  rescluster : w.rescluster = 2
  indexPerBlock : w.indexPerBlock = 253
  anodesPerBlock : w.anodesPerBlock = 84
  firstreserved : w.firstreserved = 2
  numreserved : w.numreserved = S.geo.numreserved
  bitmapstart : w.bitmapstart = S.geo.dataStart
  datestamp : w.datestamp = S.datestamp
  blocksfree : w.vol.rootblock.blocksfree = S.blocksfree
  reservedFree : w.vol.rootblock.reservedFree = S.reservedFree
  blocksfree_lt : S.blocksfree < U32
  reservedFree_lt : S.reservedFree < U32
  datestamp_lt : S.datestamp < U32
  resBitmap : w.resBitmap = BitRun.words S.resFree 0 w.resBitmap.length
  resBitmap_length :
    w.resBitmap.length = min (S.geo.numreserved / 32 + 1) (256 * S.geo.resbm - 131)
  resFree : ∀ k, S.resFree k = true → k < S.geo.numreserved
  dataBm : w.dataBm = (List.range S.geo.noBmb).map fun i =>
    (S.geo.bm i, BitRun.words S.live.free (i * 8096) 253)
  queue_nodup : (w.pendingWrites.map Prod.fst).Nodup
  queue : ∀ b d, (b, d) ∈ w.pendingWrites → S.geo.IsQueued b ∧ d.length = 1024
  live : Represents S.geo w.overlay S.live
  liveWf : S.live.Wf S.geo
  index : ∀ s, S.disk.index s ≠ 0 → S.live.index s = S.disk.index s
  root : RootRep S.geo w.vol.dev S.root
  writable : w.vol.dev.writable = true
  faults : ∀ n, w.vol.dev.faults n = false
  clock : w.clock = S.clock
  asked : w.asked = S.asked

/-- The words in memory cover the reserved blocks and fit in the cluster. -/
theorem Rep.resBitmap_bounds {g : Geometry} {w : Writer} {S : Store} (h : Rep g w S) :
    S.geo.numreserved ≤ 32 * w.resBitmap.length ∧
      w.resBitmap.length ≤ 256 * S.geo.resbm - 131 := by
  have hlen := h.resBitmap_length
  have hwords := S.geo.words
  have hdvd := Nat.div_mul_cancel S.geo.dvd
  omega

/-! ## Reserved blocks on the device -/

theorem Device.length_bytesAt (d : Device) (block count : ℕ) :
    (d.bytesAt block count).length = count * 512 := by
  rw [Device.bytesAt, List.length_flatMap]
  have h : (List.range' block count).map (fun i => (d.sectors i).val.length) =
      (List.range' block count).map fun _ => 512 :=
    List.map_congr_left fun i _ => (d.sectors i).property
  rw [h]
  simp

theorem Device.readBlocks_ok {d : Device} {block count : ℕ} (h : block + count ≤ d.total) :
    d.readBlocks block count (count * 512) = .ok (d.bytesAt block count) := by
  have hs : SECTOR_SIZE = 512 := rfl
  rw [Device.readBlocks, hs, if_neg (by omega), if_neg (by omega), Nat.sub_self,
    List.replicate_zero, List.append_nil]

theorem Device.length_of_readBlocks {d : Device} {block count bufLen : ℕ} {data : Bytes}
    (h : d.readBlocks block count bufLen = .ok data) : data.length = bufLen := by
  unfold Device.readBlocks at h
  have hs : SECTOR_SIZE = 512 := rfl
  split at h
  · cases h
  · split at h
    · cases h
    · injection h with h
      rw [← h, List.length_append, Device.length_bytesAt, List.length_replicate]
      rw [hs] at *
      omega

theorem Device.readReserved_ok {d : Device} {g : Geometry} (htotal : g.disksize ≤ d.total) {b : ℕ}
    (hb : g.IsReserved b) : d.readReserved 1024 b = .ok (d.bytesAt b 2) := by
  have h₁ := hb.add_two_le
  have h₂ := g.dataStart_lt
  have h : d.readReserved 1024 b = d.readBlocks b 2 (2 * 512) := rfl
  rw [h, Device.readBlocks_ok (by omega)]

end Pfs3
