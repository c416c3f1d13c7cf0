import Pfs3.Store.DeviceWrites
import Pfs3.Store.Layout

/-!
# What a successful format leaves on the device

The run of the formatter taken apart: the layout, and the image that every block of it holds
in the end.
-/

namespace Pfs3

open ByteList Stop

namespace Format

/-! ## Images -/

/-- A block that was filled by a list of field writes. -/
def IsImage (fields : List (ℕ × Bytes)) (size : ℕ) (img : Bytes) : Prop :=
  putAll fields (List.replicate size 0) = .ok img

theorem putAll_length {fields : List (ℕ × Bytes)} : ∀ {d d' : Bytes}, putAll fields d = .ok d' →
    d'.length = d.length := by
  induction fields with
  | nil =>
      intro d d' h
      cases h
      rfl
  | cons p fields ih =>
      intro d d' h
      obtain ⟨d₁, hput, h⟩ := of_bind_ok h
      rw [ih h]
      unfold putBytes at hput
      split at hput
      · rename_i hle
        cases hput
        exact length_splice hle
      · cases hput

theorem IsImage.length {fields : List (ℕ × Bytes)} {size : ℕ} {img : Bytes}
    (h : IsImage fields size img) : img.length = size :=
  (putAll_length h).trans List.length_replicate

/-! ## Writing images -/

theorem of_lift_ok {σ α : Type} {e : Except Fault α} {s s' : σ} {a : α}
    (h : (liftM e : EStateM Fault σ α) s = .ok a s') : e = .ok a ∧ s' = s := by
  cases e with
  | error f => cases h
  | ok b =>
      cases h
      exact ⟨rfl, rfl⟩

/-- What the device holds after one more image was written. -/
theorem of_writeImage {l : Layout} {b : ℕ} {fields : List (ℕ × Bytes)} {d d' : Device}
    (hrun : writeImage l b fields d = .ok () d') (hd : d.Sound)
    (hsize : l.resblocksize = l.rescluster * 512) (hb : b + l.rescluster ≤ d.total) :
    ∃ img, IsImage fields l.resblocksize img ∧ Device.Wrote d d' b l.rescluster img := by
  unfold writeImage at hrun
  obtain ⟨img, d₁, hput, hwrite⟩ := of_bind_eq_ok hrun
  obtain ⟨himg, rfl⟩ := of_lift_ok hput
  have himage : IsImage fields l.resblocksize img := himg
  obtain ⟨d₂, hok, hwrote⟩ := Device.writeReservedBlocks_wrote hd hb (himage.length.trans hsize)
  rw [hok] at hwrite
  cases hwrite
  exact ⟨img, himage, hwrote⟩

/-- Block `idx` of the reserved area. -/
def blkOf (rescluster idx : ℕ) : ℕ := firstreserved + idx * rescluster

/-- The images of `m` blocks in a row. -/
theorem of_writeImages {l : Layout} {fields : ℕ → List (ℕ × Bytes)}
    (hsize : l.resblocksize = l.rescluster * 512) (m : ℕ) : ∀ (seq k : ℕ) {d d' : Device},
    writeImages l fields seq ((List.range' k m).map (blkOf l.rescluster)) d = .ok () d' →
    d.Sound → blkOf l.rescluster (k + m) ≤ d.total →
    d'.Sound ∧ d'.total = d.total ∧
    (∀ i, i < blkOf l.rescluster k ∨ blkOf l.rescluster (k + m) ≤ i →
      d'.sectors i = d.sectors i) ∧
    ∀ j < m, ∃ img, IsImage (fields (seq + j)) l.resblocksize img ∧
      d'.bytesAt (blkOf l.rescluster (k + j)) l.rescluster = img := by
  induction m with
  | zero =>
      intro seq k d d' hrun hd _
      cases hrun
      exact ⟨hd, rfl, fun _ _ => rfl, fun j hj => absurd hj (Nat.not_lt_zero j)⟩
  | succ m ih =>
      intro seq k d d' hrun hd htotal
      have hnext : ∀ j, blkOf l.rescluster (j + 1) = blkOf l.rescluster j + l.rescluster := by
        intro j
        unfold blkOf
        ring
      have hmono : ∀ i j, i ≤ j → blkOf l.rescluster i ≤ blkOf l.rescluster j := by
        intro i j hij
        unfold blkOf
        exact Nat.add_le_add_left (Nat.mul_le_mul_right _ hij) _
      rw [List.range'_succ, List.map_cons, writeImages] at hrun
      obtain ⟨⟨⟩, d₁, hfirst, hrun⟩ := of_bind_eq_ok hrun
      have hle := hmono (k + 1) (k + (m + 1)) (by omega)
      rw [hnext] at hle
      obtain ⟨img, himg, hwrote⟩ := of_writeImage hfirst hd hsize (by omega)
      have hcast : k + 1 + m = k + (m + 1) := by omega
      obtain ⟨hsound, htot, hout, hin⟩ := ih (seq + 1) (k + 1) hrun hwrote.sound
        (by rw [hcast, hwrote.total]; exact htotal)
      rw [hcast] at hout
      refine ⟨hsound, htot.trans hwrote.total, ?_, ?_⟩
      · intro i hi
        have hk := hnext k
        rw [hout i (by omega), hwrote.out i (by omega)]
      · intro j hj
        rcases j with _ | j
        · refine ⟨img, himg, ?_⟩
          rw [← hwrote.bytes]
          refine Device.bytesAt_congr fun i hi hi' => hout i (Or.inl ?_)
          have hk := hnext k
          rw [Nat.add_zero] at hi'
          omega
        · obtain ⟨img', himg', hbytes⟩ := hin j (by omega)
          have h₁ : seq + 1 + j = seq + (j + 1) := by omega
          have h₂ : k + 1 + j = k + (j + 1) := by omega
          rw [h₁] at himg'
          rw [h₂] at hbytes
          exact ⟨img', himg', hbytes⟩

/-! ## The run -/

/-- The layout of a volume with `n` reserved blocks, `r` of them for the rootblock cluster. -/
def layoutOf (rbs : ℕ) (supermode : Bool) (n r dataBlocks : ℕ) : Layout :=
  let ipb := rbs / 4 - 3
  let noBmb := (dataBlocks + ipb * 32 - 1) / (ipb * 32)
  let noBmi := (noBmb + ipb - 1) / ipb
  let rc := rbs / SECTOR_SIZE
  { resblocksize := rbs
    supermode := supermode
    rescluster := rc
    numreserved := n
    rblkcluster := rc * r
    lastreserved := rc * n + firstreserved - 1
    indexPerBlock := ipb
    dataBlocks := dataBlocks
    rextBlk := blkOf rc r
    bmBlocknrs := (List.range' (r + 1) noBmb).map (blkOf rc)
    bmiBlocknrs := (List.range' (r + 1 + noBmb) noBmi).map (blkOf rc)
    anidxBlk := blkOf rc (r + 1 + noBmb + noBmi)
    anodeBlk := blkOf rc (r + 1 + noBmb + noBmi + 1)
    rootdirBlk := blkOf rc (r + 1 + noBmb + noBmi + 1 + 1)
    alloc := allocatorAt n (r + 1 + noBmb + noBmi + 1 + 1 + 1) }

/-- What a formatted device holds. -/
structure Laid (l : Layout) (totalBlocks : ℕ) (opts : FormatOptions) (now : Datestamp)
    (d : Device) : Prop where
  sound : d.Sound
  cluster : ∃ img, IsImage (clusterFields l totalBlocks opts now) (l.rblkcluster * SECTOR_SIZE) img ∧
    d.bytesAt firstreserved l.rblkcluster = img
  rext : ∃ img, IsImage (rextFields l now) l.resblocksize img ∧
    d.bytesAt l.rextBlk l.rescluster = img
  bmi : ∀ j b, l.bmiBlocknrs[j]? = some b → ∃ img, IsImage (bmiFields l j) l.resblocksize img ∧
    d.bytesAt b l.rescluster = img
  bm : ∀ j b, l.bmBlocknrs[j]? = some b → ∃ img, IsImage (bmFields l j) l.resblocksize img ∧
    d.bytesAt b l.rescluster = img
  anidx : ∃ img, IsImage (anidxFields l) l.resblocksize img ∧
    d.bytesAt l.anidxBlk l.rescluster = img
  anode : ∃ img, IsImage (anodeFields l) l.resblocksize img ∧
    d.bytesAt l.anodeBlk l.rescluster = img
  rootdir : ∃ img, IsImage rootdirFields l.resblocksize img ∧
    d.bytesAt l.rootdirBlk l.rescluster = img

/-- The layout that a successful format chose. -/
structure Chosen (totalBlocks rbs : ℕ) (supermode : Bool) (n r : ℕ) (l : Layout) : Prop where
  mode : blockMode totalBlocks = (rbs, supermode)
  numreserved : calcNumReserved totalBlocks rbs = .ok n
  cluster : r = (1024 * resbm1k n + rbs - 1) / rbs
  room : l.rescluster * n + 2 < totalBlocks % U32
  layout : l = layoutOf rbs supermode n r (totalBlocks % U32 - (l.rescluster * n + 2))
  alloc : r + 4 + l.bmBlocknrs.length + l.bmiBlocknrs.length ≤ n

theorem calcNumReserved_ok {totalBlocks rbs n : ℕ} (h : calcNumReserved totalBlocks rbs = .ok n) :
    32 ∣ n ∧ 32 ≤ n ∧ n ≤ 2093056 := by
  unfold calcNumReserved at h
  obtain ⟨taken, -, h⟩ := of_bind_ok h
  have hmax : MAXNUMRESERVED = 2093056 := rfl
  have hn : n = max ((min (taken / (rbs / 1024) - 1) MAXNUMRESERVED + 31) / 32 * 32) 32 := by
    cases h
    rfl
  rw [hmax] at hn
  omega

theorem blockMode_cases {totalBlocks rbs : ℕ} {supermode : Bool}
    (h : blockMode totalBlocks = (rbs, supermode)) : rbs = 1024 ∨ rbs = 2048 ∨ rbs = 4096 := by
  unfold blockMode at h
  split at h
  · cases h
    split
    · exact Or.inr (Or.inr rfl)
    · split
      · exact Or.inr (Or.inl rfl)
      · exact Or.inl rfl
  · cases h
    exact Or.inl rfl

/-- One sector written, as by the formatter for the boot block. -/
theorem of_writeBlock {b : ℕ} {data : Bytes} {d d' : Device}
    (hrun : Device.writeBlock b data d = .ok () d') (hd : d.Sound) (hlen : data.length = 512)
    (hb : b < d.total) : Device.Wrote d d' b 1 data := by
  obtain ⟨d₁, hok, hwrote⟩ := Device.writeBlocks_ok (n := 1) hd hb (by omega : data.length = 1 * 512)
  have heq : (EStateM.Result.ok () d₁ : EStateM.Result Fault Device Unit) = .ok () d' :=
    hok.symm.trans hrun
  cases heq
  exact hwrote

theorem size_layoutOf {totalBlocks rbs : ℕ} {supermode : Bool}
    (h : blockMode totalBlocks = (rbs, supermode)) :
    rbs = rbs / SECTOR_SIZE * 512 ∧ 2 ≤ rbs / SECTOR_SIZE := by
  have hs : SECTOR_SIZE = 512 := rfl
  rcases blockMode_cases h with rfl | rfl | rfl <;> rw [hs] <;> omega

/-- The writes of a format, for a layout that is in the device. -/
theorem of_writes {l : Layout} {totalBlocks rbs n r D : ℕ} {supermode : Bool}
    {opts : FormatOptions} {now : Datestamp} {d d' : Device} {res res' : FormatResult}
    (hrun : (do
      let rbData ← putAll (clusterFields l totalBlocks opts now)
        (List.replicate (l.rblkcluster * SECTOR_SIZE) 0)
      (List.range l.rblkcluster).forM fun i =>
        Device.writeBlock (firstreserved + i) (Sector.ofBytes (rbData.drop (i * SECTOR_SIZE))).val
      writeImage l l.rextBlk (rextFields l now)
      writeImages l (bmiFields l) 0 l.bmiBlocknrs
      if U32 < (D + l.indexPerBlock * 32 - 1) / (l.indexPerBlock * 32) *
        (l.indexPerBlock * 32) then throw .panic
      writeImages l (bmFields l) 0 l.bmBlocknrs
      writeImage l l.anidxBlk (anidxFields l)
      writeImage l l.anodeBlk (anodeFields l)
      writeImage l l.rootdirBlk rootdirFields
      Device.flush
      pure res : EStateM Fault Device FormatResult) d = .ok res' d')
    (hl : l = layoutOf rbs supermode n r D) (hd : d.Sound)
    (hsize : l.resblocksize = l.rescluster * 512)
    (hroom : blkOf l.rescluster (r + 4 + l.bmBlocknrs.length + l.bmiBlocknrs.length) ≤ d.total) :
    Laid l totalBlocks opts now d' ∧ d'.total = d.total ∧ res' = res := by
  obtain ⟨rbData, d₀, hput, h₁⟩ := of_bind_eq_ok hrun
  obtain ⟨himg, rfl⟩ := of_lift_ok hput
  obtain ⟨⟨⟩, d₁, hcluster, h₂⟩ := of_bind_eq_ok h₁
  obtain ⟨⟨⟩, d₂, hrext, h₃⟩ := of_bind_eq_ok h₂
  obtain ⟨⟨⟩, d₃, hbmi, h₄⟩ := of_bind_eq_ok h₃
  by_cases hpanic : U32 < (D + l.indexPerBlock * 32 - 1) / (l.indexPerBlock * 32) *
      (l.indexPerBlock * 32)
  · rw [if_pos hpanic] at h₄
    cases h₄
  rw [if_neg hpanic] at h₄
  obtain ⟨⟨⟩, d₄, hbm, h₅⟩ := of_bind_eq_ok h₄
  obtain ⟨⟨⟩, d₅, hanidx, h₆⟩ := of_bind_eq_ok h₅
  obtain ⟨⟨⟩, d₆, hanode, h₇⟩ := of_bind_eq_ok h₆
  obtain ⟨⟨⟩, d₇, hrootdir, h₈⟩ := of_bind_eq_ok h₇
  cases h₈
  clear h₁ h₂ h₃ h₄ h₅ h₆ h₇ hrun
  generalize hnb : l.bmBlocknrs.length = nb at hroom
  generalize hni : l.bmiBlocknrs.length = ni at hroom
  generalize hrc : l.rescluster = rc at *
  have hblk : ∀ k, blkOf rc (k + 1) = blkOf rc k + rc := fun k => by unfold blkOf; ring
  have hmono : ∀ i j, i ≤ j → blkOf rc i ≤ blkOf rc j := fun i j hij =>
    Nat.add_le_add_left (Nat.mul_le_mul_right _ hij) _
  have hlrext : l.rextBlk = blkOf rc r := by rw [hl, ← hrc, hl]; rfl
  have hlbm : l.bmBlocknrs = (List.range' (r + 1) nb).map (blkOf rc) := by
    rw [← hnb, ← hrc, hl]
    simp [layoutOf]
  have hlbmi : l.bmiBlocknrs = (List.range' (r + 1 + nb) ni).map (blkOf rc) := by
    rw [← hni, ← hnb, ← hrc, hl]
    simp [layoutOf]
  have hlanidx : l.anidxBlk = blkOf rc (r + 1 + nb + ni) := by
    rw [← hni, ← hnb, ← hrc, hl]
    simp [layoutOf]
  have hlanode : l.anodeBlk = blkOf rc (r + 1 + nb + ni + 1) := by
    rw [← hni, ← hnb, ← hrc, hl]
    simp [layoutOf]
  have hlrootdir : l.rootdirBlk = blkOf rc (r + 1 + nb + ni + 1 + 1) := by
    rw [← hni, ← hnb, ← hrc, hl]
    simp [layoutOf]
  have hlcluster : firstreserved + l.rblkcluster = blkOf rc r := by
    rw [← hrc, hl]
    exact congrArg _ (Nat.mul_comm _ _)
  have hlast : r + 1 + nb + ni + 1 + 1 + 1 = r + 4 + nb + ni := by omega
  rw [← hlast] at hroom
  have htop : ∀ k, k ≤ r + 1 + nb + ni + 1 + 1 + 1 → blkOf rc k ≤ d₀.total :=
    fun k hk => (hmono _ _ hk).trans hroom
  rw [hlbm] at hbm
  rw [hlbmi] at hbmi
  rw [hlrext] at hrext
  rw [hlanidx] at hanidx
  rw [hlanode] at hanode
  rw [hlrootdir] at hrootdir
  -- the cluster
  have hclusterOk : firstreserved + l.rblkcluster ≤ d₀.total := hlcluster ▸ htop r (by omega)
  have hforM := Device.forM_writeBlock hd hclusterOk
    (fun i => Sector.ofBytes (rbData.drop (i * SECTOR_SIZE)))
  have himage : IsImage (clusterFields l totalBlocks opts now) (l.rblkcluster * SECTOR_SIZE)
      rbData := himg
  have hwcluster := Device.wrote_putRange hd firstreserved (himage.length)
  have hd₁ : d₁ = d₀.putRange firstreserved
      (fun i => Sector.ofBytes (rbData.drop (i * SECTOR_SIZE))) l.rblkcluster := by
    have heq := hcluster.symm.trans hforM
    cases heq
    rfl
  rw [← hd₁] at hwcluster
  clear hforM hcluster hd₁
  -- the blocks behind it, in the order of the writes
  have hwrote : ∀ {e e' : Device} {k : ℕ} {fields : List (ℕ × Bytes)},
      writeImage l (blkOf rc k) fields e = .ok () e' → e.Sound → e.total = d₀.total →
      k + 1 ≤ r + 1 + nb + ni + 1 + 1 + 1 →
      ∃ img, IsImage fields l.resblocksize img ∧ Device.Wrote e e' (blkOf rc k) rc img := by
    intro e e' k fields hok he htotal hk
    have hle := htop _ hk
    rw [hblk] at hle
    obtain ⟨img, hi, hw⟩ := of_writeImage hok he (hrc ▸ hsize) (by rw [hrc, htotal]; exact hle)
    rw [hrc] at hw
    exact ⟨img, hi, hw⟩
  obtain ⟨ext, hext, w₂⟩ := hwrote hrext hwcluster.sound hwcluster.total (by omega)
  have t₂ := w₂.total.trans hwcluster.total
  have himages : l.resblocksize = l.rescluster * 512 := hrc.symm ▸ hsize
  rw [← hrc] at hbmi hbm
  obtain ⟨s₃, t₃, o₃, i₃⟩ := of_writeImages himages ni 0 (r + 1 + nb) hbmi w₂.sound
    (by rw [hrc, t₂]; exact htop _ (by omega))
  obtain ⟨s₄, t₄, o₄, i₄⟩ := of_writeImages himages nb 0 (r + 1) hbm s₃
    (by rw [hrc, t₃, t₂]; exact htop _ (by omega))
  rw [hrc] at o₃ i₃ o₄ i₄
  have t₄ := t₄.trans (t₃.trans t₂)
  obtain ⟨idx, hidx, w₅⟩ := hwrote hanidx s₄ t₄ (by omega)
  have t₅ := w₅.total.trans t₄
  obtain ⟨an, han, w₆⟩ := hwrote hanode w₅.sound t₅ (by omega)
  have t₆ := w₆.total.trans t₅
  obtain ⟨dir, hdir, w₇⟩ := hwrote hrootdir w₆.sound t₆ (by omega)
  -- what is written later does not touch what was written before
  have hanidx := hblk (r + 1 + nb + ni)
  have hanode := hblk (r + 1 + nb + ni + 1)
  have hext' := hblk r
  have hbms := hmono (r + 1) (r + 1 + nb) (by omega)
  have hbmis := hmono (r + 1 + nb) (r + 1 + nb + ni) (by omega)
  have k₇ : ∀ c m, c + m ≤ blkOf rc (r + 1 + nb + ni) → d'.bytesAt c m = d₄.bytesAt c m :=
    fun c m hc => (w₇.keeps (by omega)).trans ((w₆.keeps (by omega)).trans (w₅.keeps (by omega)))
  have k₄ : ∀ c m, c + m ≤ blkOf rc (r + 1) ∨ blkOf rc (r + 1 + nb) ≤ c →
      d₄.bytesAt c m = d₃.bytesAt c m := fun c m hc =>
    Device.bytesAt_congr fun i hi hi' => o₄ i (by omega)
  have k₃ : ∀ c m, c + m ≤ blkOf rc (r + 1) → d₃.bytesAt c m = d₂.bytesAt c m := fun c m hc =>
    Device.bytesAt_congr fun i hi hi' => o₃ i (by omega)
  refine ⟨⟨w₇.sound, ?_, ?_, ?_, ?_, ?_, ?_, ?_⟩, w₇.total.trans t₆, rfl⟩
  · refine ⟨rbData, himage, ?_⟩
    rw [k₇ _ _ (by omega), k₄ _ _ (Or.inl (by omega)), k₃ _ _ (by omega), w₂.keeps (by omega)]
    exact hwcluster.bytes
  · refine ⟨ext, hext, ?_⟩
    rw [hlrext, hrc, k₇ _ _ (by omega), k₄ _ _ (Or.inl (by omega)), k₃ _ _ (by omega)]
    exact w₂.bytes
  · intro j b hj
    have hlt : j < ni := hni ▸ (List.getElem?_eq_some_iff.mp hj).1
    rw [hlbmi, List.getElem?_map, List.getElem?_range' hlt, Nat.one_mul] at hj
    cases hj
    obtain ⟨img, himg, hbytes⟩ := i₃ j hlt
    rw [Nat.zero_add] at himg
    refine ⟨img, himg, ?_⟩
    have hlow := hmono (r + 1 + nb) (r + 1 + nb + j) (by omega)
    have hhigh := hmono (r + 1 + nb + j + 1) (r + 1 + nb + ni) (by omega)
    rw [hblk] at hhigh
    rw [hrc, k₇ _ _ hhigh, k₄ _ _ (Or.inr hlow)]
    exact hbytes
  · intro j b hj
    have hlt : j < nb := hnb ▸ (List.getElem?_eq_some_iff.mp hj).1
    rw [hlbm, List.getElem?_map, List.getElem?_range' hlt, Nat.one_mul] at hj
    cases hj
    obtain ⟨img, himg, hbytes⟩ := i₄ j hlt
    rw [Nat.zero_add] at himg
    refine ⟨img, himg, ?_⟩
    have hhigh := hmono (r + 1 + j + 1) (r + 1 + nb + ni) (by omega)
    rw [hblk] at hhigh
    rw [hrc, k₇ _ _ hhigh]
    exact hbytes
  · refine ⟨idx, hidx, ?_⟩
    rw [hlanidx, hrc, w₇.keeps (by omega), w₆.keeps (by omega)]
    exact w₅.bytes
  · refine ⟨an, han, ?_⟩
    rw [hlanode, hrc, w₇.keeps (by omega)]
    exact w₆.bytes
  · refine ⟨dir, hdir, ?_⟩
    rw [hlrootdir, hrc]
    exact w₇.bytes




theorem of_format {totalBlocks : ℕ} {opts : FormatOptions} {now : Datestamp} {d d' : Device}
    {res : FormatResult} (h : formatWithSize totalBlocks opts now d = .ok res d') (hd : d.Sound)
    (htotal : totalBlocks ≤ d.total) :
    ∃ rbs supermode n r l, Chosen totalBlocks rbs supermode n r l ∧
      Laid l totalBlocks opts now d' ∧ d'.total = d.total ∧ res.volumeName = opts.volumeName ∧
      res.totalBlocks = totalBlocks ∧ res.dataBlocks = l.dataBlocks ∧
      res.blocksFree = l.dataBlocks := by
  unfold formatWithSize at h
  rcases hmode : blockMode totalBlocks with ⟨rbs, supermode⟩
  rw [hmode] at h
  dsimp only at h
  obtain ⟨n, d₁, hlift, h₁⟩ := of_bind_eq_ok h
  obtain ⟨hn, rfl⟩ := of_lift_ok hlift
  obtain ⟨p, d₂, hlift₂, h₂⟩ := of_bind_eq_ok h₁
  obtain ⟨hrext, rfl⟩ := of_lift_ok hlift₂
  obtain ⟨hidx, ha, hr⟩ := of_alloc_new hrext
  rw [hidx, ha] at h₂
  split at h₂
  · cases h₂
  rename_i hroom
  obtain ⟨⟨⟩, d₃, hboot₀, h₃⟩ := of_bind_eq_ok h₂
  obtain ⟨⟨⟩, d₄, hboot₁, h₄⟩ := of_bind_eq_ok h₃
  obtain ⟨bm, d₅, hlift₅, h₅⟩ := of_bind_eq_ok h₄
  obtain ⟨hbm, rfl⟩ := of_lift_ok hlift₅
  obtain ⟨bmi, d₆, hlift₆, h₆⟩ := of_bind_eq_ok h₅
  obtain ⟨hbmi, rfl⟩ := of_lift_ok hlift₆
  obtain ⟨anidx, d₇, hlift₇, h₇⟩ := of_bind_eq_ok h₆
  obtain ⟨hanidx, rfl⟩ := of_lift_ok hlift₇
  obtain ⟨anode, d₈, hlift₈, h₈⟩ := of_bind_eq_ok h₇
  obtain ⟨hanode, rfl⟩ := of_lift_ok hlift₈
  obtain ⟨rootdir, d₉, hlift₉, h₉⟩ := of_bind_eq_ok h₈
  obtain ⟨hrootdir, rfl⟩ := of_lift_ok hlift₉
  have hn32 := calcNumReserved_ok hn
  have hrbs := blockMode_cases hmode
  have hfirst : firstreserved = 2 := rfl
  have hrc : 0 < rbs / SECTOR_SIZE * n := by
    have hs : SECTOR_SIZE = 512 := rfl
    rcases hrbs with rfl | rfl | rfl <;> rw [hs] <;> omega
  have harea : rbs / SECTOR_SIZE * n + firstreserved - 1 - firstreserved + 1 + firstreserved =
      rbs / SECTOR_SIZE * n + 2 := by omega
  rw [harea] at hroom hbm hbmi h₉
  obtain ⟨hbm₁, hbm₂, hbm₃⟩ := of_allocMany _ hbm
  rw [hbm₂] at hbmi
  obtain ⟨hbmi₁, hbmi₂, hbmi₃⟩ := of_allocMany _ hbmi
  rw [hbmi₂] at hanidx
  obtain ⟨hanidx₁, hanidx₂, hanidx₃⟩ := of_alloc hanidx
  rw [hanidx₂] at hanode
  obtain ⟨hanode₁, hanode₂, -⟩ := of_alloc hanode
  rw [hanode₂] at hrootdir
  obtain ⟨hrootdir₁, hrootdir₂, hlast⟩ := of_alloc hrootdir
  rw [hbm₁, hbmi₁, hanidx₁, hanode₁, hrootdir₁, hrootdir₂] at h₉
  generalize hD : totalBlocks % U32 - (rbs / SECTOR_SIZE * n + 2) = D at *
  generalize hR : (1024 * resbm1k n + rbs - 1) / rbs = r at *
  obtain ⟨l, hl⟩ : ∃ l, l = layoutOf rbs supermode n r D := ⟨_, rfl⟩
  have h₁₀ : (do
      let rbData ← putAll (clusterFields l totalBlocks opts now)
        (List.replicate (l.rblkcluster * SECTOR_SIZE) 0)
      (List.range l.rblkcluster).forM fun i =>
        Device.writeBlock (firstreserved + i) (Sector.ofBytes (rbData.drop (i * SECTOR_SIZE))).val
      writeImage l l.rextBlk (rextFields l now)
      writeImages l (bmiFields l) 0 l.bmiBlocknrs
      if U32 < (D + l.indexPerBlock * 32 - 1) / (l.indexPerBlock * 32) *
        (l.indexPerBlock * 32) then throw .panic
      writeImages l (bmFields l) 0 l.bmBlocknrs
      writeImage l l.anidxBlk (anidxFields l)
      writeImage l l.anodeBlk (anodeFields l)
      writeImage l l.rootdirBlk rootdirFields
      Device.flush
      pure
        { volumeName := opts.volumeName, totalBlocks, dataBlocks := D, blocksFree := D,
          numReserved := n, reservedBlksize := rbs } : EStateM Fault Device FormatResult) d₉ =
      .ok res d' := by
    rw [hl]
    exact h₉
  clear h h₁ h₂ h₃ h₄ h₅ h₆ h₇ h₈ h₉
  obtain ⟨hsize, hrc₂⟩ := size_layoutOf hmode
  have hlsize : l.resblocksize = l.rescluster * 512 := by rw [hl]; exact hsize
  have hlrc : l.rescluster = rbs / SECTOR_SIZE := by rw [hl]; rfl
  have hle : totalBlocks % U32 ≤ totalBlocks := Nat.mod_le _ _
  have hs : SECTOR_SIZE = 512 := rfl
  have hw₀ := of_writeBlock hboot₀ hd (by rw [List.length_append, List.length_replicate, hs]; rfl)
    (by omega)
  have hw₁ := of_writeBlock hboot₁ hw₀.sound (by rw [List.length_replicate, hs])
    (by rw [hw₀.total]; omega)
  have ht := hw₁.total.trans hw₀.total
  have halloc : r + 4 + l.bmBlocknrs.length + l.bmiBlocknrs.length ≤ n := by
    have hnb : l.bmBlocknrs.length = (D + (rbs / 4 - 3) * 32 - 1) / ((rbs / 4 - 3) * 32) := by
      rw [hl]
      simp [layoutOf]
    have hni : l.bmiBlocknrs.length = ((D + (rbs / 4 - 3) * 32 - 1) / ((rbs / 4 - 3) * 32) +
        (rbs / 4 - 3) - 1) / (rbs / 4 - 3) := by
      rw [hl]
      simp [layoutOf]
    rw [hnb, hni]
    omega
  have hfits : blkOf l.rescluster (r + 4 + l.bmBlocknrs.length + l.bmiBlocknrs.length) ≤
      rbs / SECTOR_SIZE * n + 2 := by
    rw [blkOf, hlrc, hfirst, Nat.mul_comm _ n]
    have := Nat.mul_le_mul_right (rbs / SECTOR_SIZE) halloc
    omega
  obtain ⟨hlaid, htot, rfl⟩ := of_writes h₁₀ hl hw₁.sound hlsize (by omega)
  have hlD : l.dataBlocks = D := by rw [hl]; rfl
  refine ⟨rbs, supermode, n, r, l, ⟨hmode, hn, hR.symm, ?_, ?_, halloc⟩, hlaid, htot.trans ht,
    rfl, rfl, hlD.symm, hlD.symm⟩
  · rw [hlrc]
    omega
  · rw [hlrc, hD, hl]

end Format

end Pfs3
