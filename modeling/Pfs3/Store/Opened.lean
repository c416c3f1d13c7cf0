import Pfs3.Store.SimCommit

/-!
# Opening a writer

On a device that holds a structured store, opening a volume and a writer succeeds, and the
writer stands for the store whose queue is empty.
-/

namespace Pfs3

open ByteList BlockCache Stop

namespace Holds

variable {dev : Device} {g : Geometry} {m : Meta} {rb : Rootblock}

/-- Looking up a bitmap block. -/
theorem getBitmapBlock (h : Holds dev g m) (hrb : g.SmallRb rb) (s : ℕ) :
    Reads (Coherent dev 1024 g.IsReserved) Eq (BitmapReader.getBitmapBlock (.new rb) s dev)
      (.ok (if s < g.noBmb then some (g.bm s) else none)) := by
  have hipb : (BitmapReader.new rb).indexPerBlock = 253 := by
    simp [BitmapReader.new, Rootblock.indexPerBlock, hrb.rbs]
  have hrbs : (BitmapReader.new rb).reservedBlksize = 1024 := hrb.rbs
  have hidx : (BitmapReader.new rb).bitmapindex.getD (s / 253) 0 =
      if s / 253 < g.noBmi then g.bmi (s / 253) else 0 := hrb.bitmapindex _
  have hcount := g.noBmb_le_noBmi
  unfold BitmapReader.getBitmapBlock
  simp only [hipb, hrbs, hidx]
  rw [if_neg (by omega)]
  by_cases hi : s / 253 < g.noBmi
  · have hne : g.bmi (s / 253) ≠ 0 := by
      simp only [Geometry.bmi, Geometry.blockAt]
      omega
    rw [if_pos hi, if_neg hne]
    obtain ⟨hlen, hval⟩ := h.content.bmi _ hi
    have hword := hval (s % 253) (Nat.mod_lt _ (by omega))
    rw [Nat.div_add_mod'] at hword
    refine (h.readReserved (g.bmi_isReserved hi)).seq ?_
    have hoff : INDEX_BLOCK_HEADER_SIZE + s % 253 * 4 = 12 + s % 253 * 4 := rfl
    rw [hoff, hlen, if_neg (by omega), hword]
    by_cases hs : s < g.noBmb
    · have hbm : g.bm s ≠ 0 := by
        simp only [Geometry.bm, Geometry.blockAt]
        omega
      rw [if_pos hs, if_neg hbm, if_pos hs]
      exact reads_pure rfl
    · rw [if_neg hs, if_pos rfl, if_neg hs]
      exact reads_pure rfl
  · have hs : ¬ s < g.noBmb := by omega
    rw [if_neg hi, if_pos rfl, if_neg hs]
    exact reads_pure rfl

end Holds

/-! ## The bitmaps -/

namespace Writer

variable {w : Writer} {g : Geometry} {m : Meta} {data : ℕ → Sector}

/-- The bitmap block `i` as a writer keeps it. -/
def loaded (g : Geometry) (m : Meta) (i : ℕ) : ℕ × List (BitVec 32) :=
  (g.bm i, BitRun.words m.free (i * 8096) 253)

theorem getBitmapBlockNr_run (h : VolRep w.vol g m data) (s : ℕ) :
    ∃ v, w.vol.Same g v ∧ getBitmapBlockNr s w =
      .ok (if s < g.noBmb then some (g.bm s) else none) { w with vol := v } := by
  have hr := VolRep.onCache (v := w.vol) (h.holds.getBitmapBlock h.rb s)
  obtain ⟨_, v, hm, rfl, hv⟩ := hr w.vol h.refl
  rw [← h.bitmap] at hm
  refine ⟨v, hv, ?_⟩
  unfold getBitmapBlockNr
  rw [bind_of_ok (rfl : (get : WriterM Writer) w = .ok w w)]
  simp only [onVol, zoom, setVol, hm]

/-- Loading the bitmap blocks `seqs`. -/
theorem loadDataBitmapLoop_run (seqs : List ℕ) : ∀ {w : Writer}, VolRep w.vol g m data →
    w.pendingWrites = [] → w.rescluster = 2 → w.resblocksize = 1024 → w.indexPerBlock = 253 →
    ∃ v, w.vol.Same g v ∧ loadDataBitmapLoop seqs w = .ok () { w with
      vol := v
      dataBm := w.dataBm ++ (seqs.filter fun s => decide (s < g.noBmb)).map (loaded g m) } := by
  induction seqs with
  | nil =>
      intro w h _ _ _ _
      refine ⟨w.vol, h.refl, ?_⟩
      rw [List.filter_nil, List.map_nil, List.append_nil]
      rfl
  | cons s seqs ih =>
      intro w h hp hc hr hi
      obtain ⟨v, hv, hrun⟩ := getBitmapBlockNr_run h s
      have hvol := h.same hv
      unfold loadDataBitmapLoop
      rw [bind_of_ok hrun]
      by_cases hs : s < g.noBmb
      · rw [if_pos hs]
        have hread : readReservedRaw (g.bm s) { w with vol := v } =
            .ok (v.dev.bytesAt (g.bm s) 2) { w with vol := v } := by
          have hres := (g.bm_isReserved hs).add_two_le
          have hlt := g.dataStart_lt
          have htotal := hvol.total
          have hdev : v.dev.readBlocks (g.bm s) 2 1024 = .ok (v.dev.bytesAt (g.bm s) 2) :=
            Device.readBlocks_ok (by omega)
          unfold readReservedRaw
          rw [bind_of_ok (rfl : (get : WriterM Writer) { w with vol := v } = .ok _ _)]
          simp only [hp, hc, hr, List.lookup_nil, hdev]
          rfl
        obtain ⟨ds, himage⟩ := hvol.content.bitmap s hs
        have hwords := @readWords_bitmapImage ds s m.free w.indexPerBlock hi
        dsimp only
        rw [bind_of_ok hread]
        obtain ⟨v', hv', hrest⟩ := ih (w := { w with
          vol := v
          dataBm := w.dataBm ++ [loaded g m s] }) hvol hp hc hr hi
        obtain ⟨c, rfl, _⟩ := hv
        refine ⟨v', hv', ?_⟩
        have hlongs : (readWords ({ w.vol with cache := c }.dev.bytesAt (g.bm s) 2) 12
            w.indexPerBlock).map (BitVec.ofNat 32) = (loaded g m s).2 := by
          rw [himage]
          exact hwords
        have hfilter : (s :: seqs).filter (fun s => decide (s < g.noBmb)) =
            s :: seqs.filter fun s => decide (s < g.noBmb) :=
          List.filter_cons_of_pos (by simpa using hs)
        rw [hfilter, List.map_cons]
        refine Eq.trans ?_ (hrest.trans ?_)
        · rw [bind_of_ok (rfl : (get : WriterM Writer) _ = .ok _ _)]
          dsimp only
          rw [hlongs]
          rfl
        · simp only [List.append_assoc, List.singleton_append]
      · rw [if_neg hs]
        obtain ⟨v', hv', hrest⟩ := ih (w := { w with vol := v }) hvol hp hc hr hi
        obtain ⟨c, rfl, _⟩ := hv
        refine ⟨v', hv', ?_⟩
        rw [List.filter_cons_of_neg (by simpa using hs)]
        exact hrest

/-- The writer before its bitmaps are loaded. -/
theorem ofVolume_run {v : Volume} (h : VolRep v g m data) (clock : ℕ → Datestamp) :
    ∃ w, ofVolume v clock = .ok w ∧ w.vol = v ∧ w.resblocksize = 1024 ∧ w.rescluster = 2 ∧
      w.indexPerBlock = 253 ∧ w.anodesPerBlock = 84 ∧ w.firstreserved = 2 ∧
      w.numreserved = g.numreserved ∧ w.bitmapstart = g.dataStart ∧
      w.datestamp = v.rootblock.datestamp ∧ w.dataBm = [] ∧ w.pendingWrites = [] ∧
      w.clock = clock ∧ w.asked = 0 := by
  have hrb := h.rb
  have hlt := g.dataStart_lt
  have hsize := g.disksize_lt
  have hstart : g.dataStart = 2 * g.numreserved + 2 := rfl
  have hu : U32 = 4294967296 := rfl
  have hrc : v.rootblock.reservedBlksize / SECTOR_SIZE = 2 := by rw [hrb.rbs]; rfl
  have hipb : v.rootblock.indexPerBlock = 253 := by rw [Rootblock.indexPerBlock, hrb.rbs]
  have hapb : v.rootblock.anodesPerBlock = 84 := by
    rw [Rootblock.anodesPerBlock, hrb.rbs]
    rfl
  unfold ofVolume
  simp only [hrc, hrb.first, hrb.last]
  have hbase := g.base_add_two_le
  rw [if_neg (by omega)]
  exact ⟨_, rfl, rfl, hrb.rbs, rfl, hipb, hapb, rfl, by simp only; omega, by simp only; omega, rfl,
    rfl, rfl, rfl, rfl⟩

end Writer

/-! ## The opened store -/

namespace Store

/-- The store of a writer opened on a device. -/
def opened (g : Geometry) (m : Meta) (root : Root) (data : ℕ → Sector) (clock : ℕ → Datestamp) :
    Store where
  geo := g
  datestamp := root.datestamp
  blocksfree := root.blocksfree
  reservedFree := root.reservedFree
  resFree := root.resFree
  disk := m
  live := m
  root := root
  data := data
  clock := clock
  asked := 0

end Store

theorem Writer.loadReservedBitmap_run {w : Writer} {g : Geometry} {m : Meta} {root : Root}
    {data : ℕ → Sector} (h : VolRep w.vol g m data) (hroot : RootRep g w.vol.dev root)
    (hfirst : w.firstreserved = 2) (hnum : w.numreserved = g.numreserved) :
    Writer.loadReservedBitmap w = .ok () { w with
      resBitmap := BitRun.words root.resFree 0
        (min (g.numreserved / 32 + 1) (256 * g.resbm - 131)) } := by
  have hs : SECTOR_SIZE = 512 := rfl
  have hle := g.cluster_le
  have hlt := g.dataStart_lt
  have htotal := h.total
  have hread : w.vol.dev.readBlocks 2 (2 * g.resbm) (2 * g.resbm * 512) =
      .ok (w.vol.dev.bytesAt 2 (2 * g.resbm)) := Device.readBlocks_ok (by omega)
  have hlen := w.vol.dev.length_bytesAt 2 (2 * g.resbm)
  have hcap : readWords (w.vol.dev.bytesAt 2 (2 * g.resbm)) (SECTOR_SIZE + 12)
      (g.numreserved / 32 + 1) = (readWords (w.vol.dev.bytesAt 2 (2 * g.resbm)) (SECTOR_SIZE + 12)
      (256 * g.resbm - 131)).take (g.numreserved / 32 + 1) := by
    have hall : (beWords ((w.vol.dev.bytesAt 2 (2 * g.resbm)).drop (SECTOR_SIZE + 12))).length ≤
        256 * g.resbm - 131 := by
      rw [length_beWords, List.length_drop, hlen, hs]
      omega
    rw [readWords, readWords, List.take_of_length_le hall]
  have htake : (BitRun.words root.resFree 0 (256 * g.resbm - 131)).take (g.numreserved / 32 + 1) =
      BitRun.words root.resFree 0 (min (g.numreserved / 32 + 1) (256 * g.resbm - 131)) := by
    rw [BitRun.words, BitRun.words, ← List.map_take, List.take_range]
  have hwords := congrArg (List.take (g.numreserved / 32 + 1)) hroot.words
  rw [← List.map_take, ← hcap, htake] at hwords
  unfold Writer.loadReservedBitmap
  rw [bind_of_ok (rfl : (get : WriterM Writer) w = .ok w w)]
  dsimp only
  rw [hfirst, h.rb.cluster, hnum, hs, hread]
  rw [← hwords]
  rfl

theorem filter_lt_range {k n : ℕ} (h : k ≤ n) :
    (List.range n).filter (fun s => decide (s < k)) = List.range k := by
  obtain ⟨m, rfl⟩ : ∃ m, n = k + m := ⟨n - k, by omega⟩
  have hfirst : (List.range k).filter (fun s => decide (s < k)) = List.range k :=
    List.filter_eq_self.mpr fun s hs => by simpa using hs
  have hrest : ((List.range m).map fun s => k + s).filter (fun s => decide (s < k)) = [] :=
    List.filter_eq_nil_iff.mpr fun s hs => by
      obtain ⟨i, -, rfl⟩ := List.mem_map.mp hs
      simp
  rw [List.range_add, List.filter_append, hfirst, hrest, List.append_nil]

/-- Opening a volume and a writer on a device that holds a structured store. -/
theorem open_ok {dev : Device} {g : Geometry} {m : Meta} {root : Root} (h : Holds dev g m)
    (hroot : RootRep g dev root) (hsound : dev.Sound) (clock : ℕ → Datestamp) :
    ∃ v w, Volume.fromDevice dev = .ok v ∧ Writer.open v clock = .ok w ∧ w.vol.dev = dev ∧
      Rep g w (.opened g m root dev.sectors clock) := by
  obtain ⟨v, hopen, hv, rfl, hds, hbf, hrf, -⟩ := fromDevice_ok h hroot
  obtain ⟨w, hw, rfl, h₁, h₂, h₃, h₄, h₅, h₆, h₇, h₈, h₉, h₁₀, h₁₁, h₁₂⟩ :=
    Writer.ofVolume_run hv clock
  have hres := Writer.loadReservedBitmap_run hv hroot h₅ h₆
  obtain ⟨v', ⟨c, rfl, hc⟩, hload⟩ := @Writer.loadDataBitmapLoop_run g m w.vol.dev.sectors
    (List.range (min ((w.vol.rootblock.disksize + w.indexPerBlock * 32 - 1) /
      (w.indexPerBlock * 32)) 16384))
    { w with
      resBitmap := BitRun.words root.resFree 0
        (min (g.numreserved / 32 + 1) (256 * g.resbm - 131)) } hv h₁₀ h₂ h₁ h₃
  obtain ⟨rb, hparse, hsmall, -, -, hdsr, hbfr, hrfr⟩ := hroot.parse
  have hlt : ∀ off, be32 (w.vol.dev.bytesAt 2 (2 * g.resbm)) off < U32 := fun off => be32_lt _ _
  have hfields : rb.datestamp < U32 ∧ rb.blocksfree < U32 ∧ rb.reservedFree < U32 := by
    unfold Rootblock.parse at hparse
    split at hparse
    · cases hparse
    · split at hparse
      · cases hparse
      · cases hparse
        exact ⟨hlt _, hlt _, hlt _⟩
  have hfilter : (List.range (min ((w.vol.rootblock.disksize + w.indexPerBlock * 32 - 1) /
      (w.indexPerBlock * 32)) 16384)).filter (fun s => decide (s < g.noBmb)) =
      List.range g.noBmb := by
    have hn := g.noBmb_le
    have hle : g.noBmb ≤ (g.disksize + 8095) / 8096 := by
      simp only [Geometry.noBmb, bitmapBlocks, Geometry.dataBlocks]
      omega
    rw [h₃, hv.rb.disksize]
    exact filter_lt_range (by omega)
  rw [hfilter] at hload
  have hlen := BitRun.length_words root.resFree 0
    (min (g.numreserved / 32 + 1) (256 * g.resbm - 131))
  generalize hws : BitRun.words root.resFree 0
    (min (g.numreserved / 32 + 1) (256 * g.resbm - 131)) = ws at hres hload hlen
  refine ⟨w.vol, { w with
    vol := { w.vol with cache := c }
    resBitmap := ws
    dataBm := (List.range g.noBmb).map (Writer.loaded g m) }, hopen, ?_, rfl, ?_⟩
  · have hrun := (bind_of_ok (k := fun _ => Writer.loadDataBitmap) hres).trans hload
    unfold Writer.open
    rw [hw, ok_bind]
    dsimp only
    rw [hrun]
    dsimp only
    rw [h₉, List.nil_append]
    rfl
  · have hcontent : Represents g (Writer.overlay { w with
        vol := { w.vol with cache := c }
        resBitmap := ws
        dataBm := (List.range g.noBmb).map (Writer.loaded g m) }) m := by
      unfold Writer.overlay
      simp only [h₁₀, List.lookup_nil]
      exact hv.content
    exact
      { geo := rfl
        vol := hv.same ⟨c, rfl, hc⟩
        resblocksize := h₁
        rescluster := h₂
        indexPerBlock := h₃
        anodesPerBlock := h₄
        firstreserved := h₅
        numreserved := h₆
        bitmapstart := h₇
        datestamp := h₈.trans hds
        blocksfree := hbf
        reservedFree := hrf
        blocksfree_lt := hbfr.symm.trans_lt hfields.2.1
        reservedFree_lt := hrfr.symm.trans_lt hfields.2.2
        datestamp_lt := hdsr.symm.trans_lt hfields.1
        resBitmap := hws.symm.trans (congrArg (BitRun.words root.resFree 0) hlen.symm)
        resBitmap_length := hlen
        resFree := hroot.resFree
        dataBm := rfl
        queue_nodup := by simp only [h₁₀]; exact List.nodup_nil
        queue := fun b d hd => by simp only [h₁₀, List.not_mem_nil] at hd
        live := hcontent
        liveWf := h.wf
        index := fun _ _ => rfl
        root := hroot
        writable := hsound.writable
        faults := hsound.faults
        clock := h₁₁
        asked := h₁₂ }

end Pfs3
