import Pfs3.Store.Readers

/-!
# The rootblock cluster

The rootblock is read from windows of the cluster's first sector, so a commit, which writes
the datestamp, the two counters and the reserved bitmap, changes three of its fields.  A
volume opened on a device that holds a structured store reads that store.
-/

namespace Pfs3

open ByteList BlockCache Stop

/-! ## Windows -/

/-- The two blocks agree on `n` bytes from `i` on. -/
def Window (d d' : Bytes) (i n : ℕ) : Prop := (d'.drop i).take n = (d.drop i).take n

namespace Window

variable {d d' : Bytes} {i n : ℕ}

theorem sub (h : Window d d' i n) {j m : ℕ} (hi : i ≤ j) (hj : j + m ≤ i + n) :
    Window d d' j m := by
  have hdrop : ∀ l : Bytes, (l.drop j).take m = (((l.drop i).take n).drop (j - i)).take m := by
    intro l
    rw [List.drop_take, List.take_take, List.drop_drop, Nat.min_eq_left (by omega)]
    congr 2
    omega
  unfold Window at h ⊢
  rw [hdrop d', hdrop d, h]

theorem be32 (h : Window d d' i n) {j : ℕ} (hi : i ≤ j) (hj : j + 4 ≤ i + n) :
    ByteList.be32 d' j = ByteList.be32 d j := be32_eq_of_take (h.sub hi hj)

theorem be16 (h : Window d d' i n) {j : ℕ} (hi : i ≤ j) (hj : j + 2 ≤ i + n) :
    ByteList.be16 d' j = ByteList.be16 d j := be16_eq_of_take (h.sub hi hj)

theorem getD (h : Window d d' i n) {j : ℕ} (hi : i ≤ j) (hj : j + 1 ≤ i + n) :
    d'.getD j 0 = d.getD j 0 := by
  have hget : ∀ l : Bytes, l.getD j 0 = ((l.drop j).take 1).getD 0 0 := by
    intro l
    rw [List.getD_eq_getElem?_getD, List.getD_eq_getElem?_getD, List.getElem?_take_of_lt (by omega),
      List.getElem?_drop, Nat.add_zero]
  have hsub : (d'.drop j).take 1 = (d.drop j).take 1 := h.sub hi hj
  rw [hget d', hget d, hsub]

theorem beWords_take (l : Bytes) (k : ℕ) : (beWords l).take k = beWords (l.take (k * 4)) := by
  induction k generalizing l with
  | zero => simp [beWords]
  | succ k ih =>
      rw [Nat.succ_mul]
      rcases l with _ | ⟨a, _ | ⟨b, _ | ⟨c, _ | ⟨e, l⟩⟩⟩⟩
      · simp [beWords]
      · simp [beWords]
      · simp [beWords]
      · simp [beWords]
      · simp only [beWords, List.take_succ_cons, ih]

theorem readWords (h : Window d d' i n) {j k : ℕ} (hi : i ≤ j) (hj : j + k * 4 ≤ i + n) :
    Pfs3.readWords d' j k = Pfs3.readWords d j k := by
  have hsub : (d'.drop j).take (k * 4) = (d.drop j).take (k * 4) := h.sub hi hj
  rw [Pfs3.readWords, Pfs3.readWords, beWords_take, beWords_take, hsub]

theorem refl (d : Bytes) (i n : ℕ) : Window d d i n := rfl

theorem splice (h : Window d d' i n) {x : Bytes} {o : ℕ} (hd : o + x.length ≤ d'.length)
    (hdis : i + n ≤ o ∨ o + x.length ≤ i) : Window d (ByteList.splice d' o x) i n :=
  (take_drop_splice hd hdis).trans h

end Window

/-! ## Parsing -/

/-- The volume name in the rootblock. -/
def diskName (c : Bytes) : Name :=
  latin1ToString ((c.drop (RB_OFF_DISKNAME + 1)).take (min (c.getD RB_OFF_DISKNAME 0).toNat 31))

theorem parse_diskname {c : Bytes} {rb : Rootblock} (h : Rootblock.parse c = .ok rb) :
    rb.diskname = diskName c := by
  unfold Rootblock.parse at h
  split at h
  · cases h
  · split at h
    · cases h
    · cases h
      rfl

theorem parse_counters {c : Bytes} {rb : Rootblock} (h : Rootblock.parse c = .ok rb) :
    be32 c RB_OFF_RESERVED_FREE = rb.reservedFree ∧ be32 c RB_OFF_BLOCKSFREE = rb.blocksfree := by
  unfold Rootblock.parse at h
  split at h
  · cases h
  · split at h
    · cases h
    · cases h
      exact ⟨rfl, rfl⟩

theorem diskName_window {c c' : Bytes} (h : Window c c' 0x14 0x20) : diskName c' = diskName c := by
  have hname : (min (c.getD RB_OFF_DISKNAME 0).toNat 31) ≤ 31 := Nat.min_le_right _ _
  have hbyte : c'.getD RB_OFF_DISKNAME 0 = c.getD RB_OFF_DISKNAME 0 :=
    h.getD (by simp only [RB_OFF_DISKNAME]; omega) (by simp only [RB_OFF_DISKNAME]; omega)
  have hslice : ∀ m ≤ 31, (c'.drop (RB_OFF_DISKNAME + 1)).take m =
      (c.drop (RB_OFF_DISKNAME + 1)).take m := fun m hm =>
    h.sub (by simp only [RB_OFF_DISKNAME]; omega) (by simp only [RB_OFF_DISKNAME]; omega)
  rw [diskName, diskName, hbyte, hslice _ hname]

/-- Two clusters that agree on everything but the datestamp, the name and the counters. -/
theorem parse_window {c c' : Bytes} (hc : 512 ≤ c.length) (hc' : 512 ≤ c'.length)
    (h₀ : Window c c' 0 8) (h₁ : Window c c' 0x34 8) (h₂ : Window c c' 0x40 4)
    (h₃ : Window c c' 0x48 440) :
    Rootblock.parse c' = (Rootblock.parse c).map fun rb =>
      { rb with
        datestamp := be32 c' RB_OFF_DATESTAMP
        diskname := diskName c'
        reservedFree := be32 c' RB_OFF_RESERVED_FREE
        blocksfree := be32 c' RB_OFF_BLOCKSFREE } := by
  have hu : RB_OFF_INDEX_UNION = 0x60 := rfl
  have hn : ¬ c.length < RB_OFF_INDEX_UNION := by rw [hu]; omega
  have hn' : ¬ c'.length < RB_OFF_INDEX_UNION := by rw [hu]; omega
  have hmagic' : be32 c' 0 = be32 c 0 := h₀.be32 (by omega) (by omega)
  unfold Rootblock.parse
  rw [if_neg hn', if_neg hn, hmagic']
  by_cases hmagic : be32 c 0 ∉ PFS_TYPES
  · rw [if_pos hmagic, if_pos hmagic]
    rfl
  · rw [if_neg hmagic, if_neg hmagic]
    have hlarge : readWords c' RB_OFF_INDEX_UNION (MAXBITMAPINDEX + 1) =
        readWords c RB_OFF_INDEX_UNION (MAXBITMAPINDEX + 1) :=
      h₃.readWords (by omega) (by simp only [hu, MAXBITMAPINDEX]; omega)
    have hsmall : readWords c' RB_OFF_INDEX_UNION (MAXSMALLBITMAPINDEX + 1) =
        readWords c RB_OFF_INDEX_UNION (MAXSMALLBITMAPINDEX + 1) :=
      h₃.readWords (by omega) (by simp only [hu, MAXSMALLBITMAPINDEX]; omega)
    have hindex : readWords c' (RB_OFF_INDEX_UNION + (MAXSMALLBITMAPINDEX + 1) * 4)
          (MAXSMALLINDEXNR + 1) =
        readWords c (RB_OFF_INDEX_UNION + (MAXSMALLBITMAPINDEX + 1) * 4) (MAXSMALLINDEXNR + 1) :=
      h₃.readWords (by omega) (by simp only [hu, MAXSMALLBITMAPINDEX, MAXSMALLINDEXNR]; omega)
    have hoptions : be32 c' RB_OFF_OPTIONS = be32 c RB_OFF_OPTIONS :=
      h₀.be32 (by omega) (by simp only [RB_OFF_OPTIONS]; omega)
    have hlast : be32 c' RB_OFF_LASTRESERVED = be32 c RB_OFF_LASTRESERVED :=
      h₁.be32 (by simp only [RB_OFF_LASTRESERVED]; omega) (by simp only [RB_OFF_LASTRESERVED]; omega)
    have hfirst : be32 c' RB_OFF_FIRSTRESERVED = be32 c RB_OFF_FIRSTRESERVED :=
      h₁.be32 (by simp only [RB_OFF_FIRSTRESERVED]; omega)
        (by simp only [RB_OFF_FIRSTRESERVED]; omega)
    have hrbs : be16 c' RB_OFF_RESERVED_BLKSIZE = be16 c RB_OFF_RESERVED_BLKSIZE :=
      h₂.be16 (by simp only [RB_OFF_RESERVED_BLKSIZE]; omega)
        (by simp only [RB_OFF_RESERVED_BLKSIZE]; omega)
    have hcluster : be16 c' RB_OFF_RBLKCLUSTER = be16 c RB_OFF_RBLKCLUSTER :=
      h₂.be16 (by simp only [RB_OFF_RBLKCLUSTER]; omega) (by simp only [RB_OFF_RBLKCLUSTER]; omega)
    have halways : be32 c' RB_OFF_ALWAYSFREE = be32 c RB_OFF_ALWAYSFREE :=
      h₃.be32 (by simp only [RB_OFF_ALWAYSFREE]; omega) (by simp only [RB_OFF_ALWAYSFREE]; omega)
    have hsize : be32 c' RB_OFF_DISKSIZE = be32 c RB_OFF_DISKSIZE :=
      h₃.be32 (by simp only [RB_OFF_DISKSIZE]; omega) (by simp only [RB_OFF_DISKSIZE]; omega)
    have hext : be32 c' RB_OFF_EXTENSION = be32 c RB_OFF_EXTENSION :=
      h₃.be32 (by simp only [RB_OFF_EXTENSION]; omega) (by simp only [RB_OFF_EXTENSION]; omega)
    simp only [hoptions, hlast, hfirst, hrbs, hcluster, halways, hsize, hext,
      hindex, apply_ite (readWords c' RB_OFF_INDEX_UNION), hlarge, hsmall]
    simp only [← apply_ite (readWords c RB_OFF_INDEX_UNION)]
    rfl

/-- The rootblock needs the cluster's first sector only. -/
theorem parse_take {c : Bytes} (hc : 512 ≤ c.length) :
    Rootblock.parse (c.take 512) = Rootblock.parse c := by
  have hw : Window c (c.take 512) 0 512 := by
    unfold Window
    rw [List.drop_zero, List.drop_zero, List.take_take, Nat.min_self]
  have hlen : (c.take 512).length = 512 := by rw [List.length_take]; omega
  have hstamp : be32 (c.take 512) RB_OFF_DATESTAMP = be32 c RB_OFF_DATESTAMP :=
    hw.be32 (by omega) (by simp only [RB_OFF_DATESTAMP]; omega)
  have hres : be32 (c.take 512) RB_OFF_RESERVED_FREE = be32 c RB_OFF_RESERVED_FREE :=
    hw.be32 (by omega) (by simp only [RB_OFF_RESERVED_FREE]; omega)
  have hfree : be32 (c.take 512) RB_OFF_BLOCKSFREE = be32 c RB_OFF_BLOCKSFREE :=
    hw.be32 (by omega) (by simp only [RB_OFF_BLOCKSFREE]; omega)
  have hname : diskName (c.take 512) = diskName c :=
    diskName_window (hw.sub (by omega) (by omega))
  rw [parse_window hc (by omega) (hw.sub (by omega) (by omega)) (hw.sub (by omega) (by omega))
    (hw.sub (by omega) (by omega)) (hw.sub (by omega) (by omega)), hstamp, hres, hfree, hname]
  unfold Rootblock.parse
  split
  · rfl
  · split <;> rfl

/-! ## Opening a device -/

theorem Geometry.resbm_pos (g : Geometry) : 0 < g.resbm := by
  have h := g.words
  omega

theorem Device.bytesAt_succ (d : Device) (block count : ℕ) :
    d.bytesAt block (count + 1) = (d.sectors block).val ++ d.bytesAt (block + 1) count := by
  rw [Device.bytesAt, List.range'_succ, List.flatMap_cons]
  rfl

theorem Device.take_bytesAt (d : Device) (block : ℕ) {count : ℕ} (h : 0 < count) :
    (d.bytesAt block count).take 512 = d.bytesAt block 1 := by
  obtain ⟨n, rfl⟩ : ∃ n, count = n + 1 := ⟨count - 1, by omega⟩
  have hlen : (d.sectors block).val.length = 512 := (d.sectors block).property
  rw [d.bytesAt_succ block n, d.bytesAt_succ block 0, List.take_append_of_le_length (by omega),
    List.take_of_length_le (by omega)]
  exact (List.append_nil _).symm

/-- The first block behind the rootblock cluster lies in the reserved area. -/
theorem Geometry.cluster_le (g : Geometry) : 2 + 2 * g.resbm ≤ g.dataStart := by
  have h := g.rext_isReserved.add_two_le
  simp only [rext, blockAt] at h
  omega

/-- Opening a device that holds the content `m` and the root data `root`. -/
theorem fromDevice_ok {dev : Device} {g : Geometry} {m : Meta} {root : Root}
    (h : Holds dev g m) (hroot : RootRep g dev root) :
    ∃ v, Volume.fromDevice dev = .ok v ∧ VolRep v g m dev.sectors ∧ v.dev = dev ∧
      v.rootblock.datestamp = root.datestamp ∧ v.rootblock.blocksfree = root.blocksfree ∧
      v.rootblock.reservedFree = root.reservedFree ∧ v.rootblock.extension = g.rext ∧
      Rootblock.parse (dev.bytesAt 2 (2 * g.resbm)) = .ok v.rootblock := by
  obtain ⟨rb, hparse, hsmall, hext, hrext, hds, hbf, hrf⟩ := hroot.parse
  obtain ⟨x, hx, hdel⟩ := hroot.ext
  have hpos := g.resbm_pos
  have hle := g.cluster_le
  have hlt := g.dataStart_lt
  have htotal := h.total
  have hlen := dev.length_bytesAt 2 (2 * g.resbm)
  have hs : SECTOR_SIZE = 512 := rfl
  have hfirst : dev.readBlock ROOTBLOCK = .ok (dev.bytesAt 2 1) := by
    have hread : dev.readBlocks 2 1 (1 * 512) = .ok (dev.bytesAt 2 1) :=
      Device.readBlocks_ok (by omega)
    exact hread
  have hparse₁ : Rootblock.parse (dev.bytesAt 2 1) = .ok rb := by
    rw [← dev.take_bytesAt 2 (by omega : 0 < 2 * g.resbm), parse_take (by omega), hparse]
  have hread : dev.readBlocks ROOTBLOCK rb.rblkcluster (rb.rblkcluster * 512) =
      .ok (dev.bytesAt 2 (2 * g.resbm)) := by
    rw [hsmall.cluster]
    exact Device.readBlocks_ok (by simp only [ROOTBLOCK]; omega)
  have hvalid : Volume.validateRbs rb = .ok () := by
    rw [Volume.validateRbs, hsmall.rbs]
    rfl
  obtain ⟨_, c, hblock, rfl, hc⟩ := (h.readReserved g.rext_isReserved).ok
    (@coherent_new dev 1024 g.IsReserved)
  refine ⟨⟨dev, c, rb, some x, .new rb (some x), .new rb⟩, ?_, ?_, rfl, hds, hbf, hrf, hrext,
    hparse⟩
  · unfold Volume.fromDevice
    rw [hfirst, ok_bind, hparse₁, ok_bind, if_pos (by rw [hsmall.cluster]; omega), hread, ok_bind,
      hparse]
    simp only [ok_bind, hvalid, hext, if_true, hsmall.rbs, hrext, hblock, hx]
    rfl
  · exact
      { rb := hsmall
        ext := ⟨x, rfl, hdel⟩
        anodes := rfl
        bitmap := rfl
        cache := hc
        content := h.content
        wf := h.wf
        data := fun _ _ _ => rfl
        total := h.total }

end Pfs3
