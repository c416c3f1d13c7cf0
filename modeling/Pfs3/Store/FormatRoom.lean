import Pfs3.Store.Fresh

/-!
# A format that runs out of space has written nothing

The growth loop of `calc_num_reserved` ends after `j` rounds with a volume of at most `2^(10+j)`
blocks.  At each of the 23 possible ends the reserved area holds all the blocks that a volume of
that size needs, so after the size check no allocation fails.
-/

namespace Pfs3

open ByteList Stop

/-! ## Computations that never report a full disk -/

/-- However it ends, the computation does not end with `Err(DiskFull)`. -/
def NeverFull {σ α : Type} (m : EStateM Fault σ α) : Prop :=
  ∀ s s' msg, m s ≠ .error (.err (.diskFull msg)) s'

section NeverFull

variable {σ α β : Type}

theorem neverFull_pure (a : α) : NeverFull (pure a : EStateM Fault σ α) := by
  intro s s' msg h
  cases h

theorem neverFull_throw {f : Fault} (hf : ∀ msg, f ≠ .err (.diskFull msg)) :
    NeverFull (throw f : EStateM Fault σ α) := by
  intro s s' msg h
  injection h with hf'
  exact hf msg hf'

theorem neverFull_lift {e : Except Fault α} (he : ∀ msg, e ≠ .error (.err (.diskFull msg))) :
    NeverFull (liftM e : EStateM Fault σ α) := by
  intro s s' msg h
  cases e with
  | error f =>
      injection h with hf
      exact he msg (by rw [hf])
  | ok a => cases h

theorem NeverFull.bind {m : EStateM Fault σ α} {k : α → EStateM Fault σ β} (h : NeverFull m)
    (hk : ∀ a, NeverFull (k a)) : NeverFull (m >>= k) := by
  intro s s' msg hrun
  rcases hm : m s with ⟨a, s₁⟩ | ⟨f, s₁⟩
  · rw [bind_of_ok hm] at hrun
    exact hk a s₁ s' msg hrun
  · rw [bind_of_error hm] at hrun
    injection hrun with hf hs
    exact h s s₁ msg (by rw [hm, hf])

theorem NeverFull.elim {m : EStateM Fault σ α} (h : NeverFull m) {s s' : σ} {msg : String}
    (hrun : m s = .error (.err (.diskFull msg)) s') {P : Prop} : P :=
  (h s s' msg hrun).elim

theorem neverFull_forM {m : α → EStateM Fault σ PUnit} (h : ∀ a, NeverFull (m a)) (l : List α) :
    NeverFull (l.forM m) := by
  induction l with
  | nil => exact neverFull_pure _
  | cons a l ih => exact (h a).bind fun _ => ih

end NeverFull

namespace Device

theorem neverFull_writeSectors (l : List Sector) : ∀ block, NeverFull (writeSectors block l) := by
  induction l with
  | nil => exact fun block => neverFull_pure _
  | cons s l ih =>
      intro block
      refine NeverFull.bind ?_ fun _ => ih (block + 1)
      intro d d' msg h
      unfold writeSector at h
      split at h
      · cases h
      · cases h

theorem neverFull_writeBlocks (block count : ℕ) (data : Bytes) :
    NeverFull (writeBlocks block count data) := by
  refine NeverFull.bind (fun d d' msg h => by cases h) fun d => ?_
  split
  · exact neverFull_throw fun msg h => by cases h
  · split
    · exact neverFull_throw fun msg h => by cases h
    · split
      · exact neverFull_throw fun msg h => by cases h
      · exact neverFull_writeSectors _ block

theorem neverFull_writeReservedBlocks (blk : ℕ) (data : Bytes) (rescluster : ℕ) :
    NeverFull (writeReservedBlocks blk data rescluster) :=
  neverFull_forM (fun _ => neverFull_writeBlocks _ _ _) _

end Device

namespace Format

theorem putAll_ne_diskFull (fields : List (ℕ × Bytes)) : ∀ (d : Bytes) (msg : String),
    putAll fields d ≠ .error (.err (.diskFull msg)) := by
  induction fields with
  | nil =>
      intro d msg h
      cases h
  | cons p fields ih =>
      intro d msg h
      rw [putAll, putBytes] at h
      split at h
      · exact ih _ msg h
      · cases h

theorem neverFull_writeImage (l : Layout) (blk : ℕ) (fields : List (ℕ × Bytes)) :
    NeverFull (writeImage l blk fields) :=
  (neverFull_lift (putAll_ne_diskFull fields _)).bind fun _ =>
    Device.neverFull_writeReservedBlocks _ _ _

theorem neverFull_writeImages (l : Layout) (fields : ℕ → List (ℕ × Bytes)) (blks : List ℕ) :
    ∀ seq, NeverFull (writeImages l fields seq blks) := by
  induction blks with
  | nil => exact fun seq => neverFull_pure _
  | cons b blks ih => exact fun seq => (neverFull_writeImage l b _).bind fun _ => ih (seq + 1)

/-! ## The growth of the reserved area -/

/-- `taken` after `j` rounds of the growth loop. -/
def takenAt : ℕ → ℕ
  | 0 => 32
  | j + 1 => takenAt j + takenAt j * (if 512 * 2048 ≤ 2 ^ (11 + j) then 10 else 14) / 16

/-- In the rounds that a volume below `2^32` blocks takes, nothing overflows. -/
theorem takenAt_lt {j : ℕ} (hj : j < 23) : takenAt j * 30 < U32 :=
  (by decide : ∀ j < 23, takenAt j * 30 < U32) j hj

theorem growTaken_ok {totalBlocks : ℕ} (h : totalBlocks < U32) (k : ℕ) : ∀ j, j + k = 22 →
    ∃ i < 23, totalBlocks ≤ 2 ^ (10 + i) ∧
      growTaken totalBlocks (List.range' (11 + j) (53 - j)) (takenAt j) = .ok (takenAt i) := by
  have hu : U32 = 2 ^ 32 := rfl
  -- round `j` is the last one as soon as the volume has at most `2^(10+j)` blocks
  have hstop : ∀ j < 23, totalBlocks ≤ 2 ^ (10 + j) →
      growTaken totalBlocks (List.range' (11 + j) (53 - j)) (takenAt j) = .ok (takenAt j) := by
    intro j hj hle
    have hpow : 2 ^ (11 + j) / 2 = 2 ^ (10 + j) := by
      rw [show 11 + j = 10 + j + 1 by omega, pow_succ]
      simp
    rw [show 53 - j = 52 - j + 1 by omega, List.range'_succ, growTaken, hpow, if_neg (by omega)]
  induction k with
  | zero =>
      intro j hj
      obtain rfl : j = 22 := by omega
      exact ⟨22, by omega, by omega, hstop 22 (by omega) (by omega)⟩
  | succ k ih =>
      intro j hj
      by_cases hle : totalBlocks ≤ 2 ^ (10 + j)
      · exact ⟨j, by omega, hle, hstop j (by omega) hle⟩
      · obtain ⟨i, hi, htotal, hgrow⟩ := ih (j + 1) (by omega)
        refine ⟨i, hi, htotal, ?_⟩
        have hlt := @takenAt_lt j (by omega)
        have hpow : 2 ^ (11 + j) / 2 = 2 ^ (10 + j) := by
          rw [show 11 + j = 10 + j + 1 by omega, pow_succ]
          simp
        have hm : (if 512 * 2048 ≤ 2 ^ (11 + j) then 10 else 14) ≤ 14 := by
          split <;> omega
        have hmul := Nat.mul_le_mul_left (takenAt j) hm
        rw [show 53 - j = 53 - (j + 1) + 1 by omega, List.range'_succ, growTaken, hpow,
          if_pos (by omega)]
        dsimp only
        rw [if_neg (by omega)]
        rw [← hgrow, takenAt]
        rfl

/-- `numreserved` for a given `taken`. -/
def reservedOf (rbs taken : ℕ) : ℕ :=
  max ((min (taken / (rbs / 1024) - 1) MAXNUMRESERVED + 31) / 32 * 32) 32

theorem calcNumReserved_eq {totalBlocks : ℕ} (h : totalBlocks < U32) (rbs : ℕ) :
    ∃ j < 23, totalBlocks ≤ 2 ^ (10 + j) ∧
      calcNumReserved totalBlocks rbs = .ok (reservedOf rbs (takenAt j)) := by
  obtain ⟨j, hj, htotal, hgrow⟩ := growTaken_ok h 22 0 rfl
  refine ⟨j, hj, htotal, ?_⟩
  have hgrow' : growTaken totalBlocks (List.range' 11 53) 32 = .ok (takenAt j) := hgrow
  unfold calcNumReserved
  rw [hgrow']
  rfl

/-! ## The demand -/

/-- Reserved blocks that the rootblock cluster takes. -/
def clusterBlocks (rbs n : ℕ) : ℕ := (1024 * resbm1k n + rbs - 1) / rbs

/-- Bitmap and bitmap index blocks of a volume with `dataBlocks` data blocks. -/
def tableBlocks (rbs dataBlocks : ℕ) : ℕ :=
  let ipb := rbs / 4 - 3
  let noBmb := (dataBlocks + ipb * 32 - 1) / (ipb * 32)
  noBmb + (noBmb + ipb - 1) / ipb

theorem tableBlocks_mono (rbs : ℕ) {D D' : ℕ} (h : D ≤ D') :
    tableBlocks rbs D ≤ tableBlocks rbs D' := by
  have hb := @Nat.div_le_div_right (D + (rbs / 4 - 3) * 32 - 1) (D' + (rbs / 4 - 3) * 32 - 1)
    ((rbs / 4 - 3) * 32) (by omega)
  exact Nat.add_le_add hb (Nat.div_le_div_right (by omega))

/-- At each end of the growth loop the reserved area is large enough. -/
theorem demand_le : ∀ rbs ∈ [1024, 2048, 4096], ∀ j < 23,
    clusterBlocks rbs (reservedOf rbs (takenAt j)) + 4 + tableBlocks rbs (2 ^ (10 + j)) ≤
      reservedOf rbs (takenAt j) := by
  decide +kernel

/-! ## Room for everything -/

/-- The reserved area holds the rootblock cluster, the extension, the bitmap and bitmap index
blocks, the anode index block, the anode block and the root directory, and the rootblock cluster
holds the whole reserved bitmap. -/
structure Layout.HasRoom (l : Layout) : Prop where
  area : l.lastreserved + 1 = firstreserved + l.rescluster * l.numreserved
  blocks : l.rblkcluster + l.rescluster * (4 + l.bmBlocknrs.length + l.bmiBlocknrs.length) ≤
    l.rescluster * l.numreserved
  bitmap : SECTOR_SIZE + 12 + 4 * l.alloc.buildBitmap.length ≤ l.rblkcluster * SECTOR_SIZE

theorem blockMode_mem {totalBlocks rbs : ℕ} {supermode : Bool}
    (h : blockMode totalBlocks = (rbs, supermode)) : rbs ∈ [1024, 2048, 4096] := by
  rcases blockMode_cases h with rfl | rfl | rfl <;> decide

/-- The layout that the formatter chooses has room, whatever part of the volume is data. -/
theorem hasRoom_layoutOf {totalBlocks rbs n D : ℕ} {supermode : Bool} (h : totalBlocks < U32)
    (hmode : blockMode totalBlocks = (rbs, supermode)) (hn : calcNumReserved totalBlocks rbs = .ok n)
    (hD : D ≤ totalBlocks) :
    clusterBlocks rbs n + 4 + tableBlocks rbs D ≤ n ∧
      (layoutOf rbs supermode n (clusterBlocks rbs n) D).HasRoom := by
  have hrbs := blockMode_mem hmode
  obtain ⟨j, hj, htotal, hcalc⟩ := calcNumReserved_eq h rbs
  obtain rfl : n = reservedOf rbs (takenAt j) := by
    rw [hcalc] at hn
    injection hn with hn
    exact hn.symm
  have hdemand := demand_le rbs hrbs j hj
  have hmono := tableBlocks_mono rbs (hD.trans htotal)
  obtain ⟨hdvd, hpos, -⟩ := calcNumReserved_ok hcalc
  generalize reservedOf rbs (takenAt j) = n at *
  have hroom : clusterBlocks rbs n + 4 + tableBlocks rbs D ≤ n := by omega
  refine ⟨hroom, ?_, ?_, ?_⟩
  · have hs : 0 < rbs / SECTOR_SIZE * n := by
      have hs : SECTOR_SIZE = 512 := rfl
      rcases blockMode_cases hmode with rfl | rfl | rfl <;> rw [hs] <;> omega
    simp only [layoutOf, firstreserved]
    omega
  · have hlen : (layoutOf rbs supermode n (clusterBlocks rbs n) D).bmBlocknrs.length +
        (layoutOf rbs supermode n (clusterBlocks rbs n) D).bmiBlocknrs.length =
          tableBlocks rbs D := by
      simp [layoutOf, tableBlocks]
    rw [Nat.add_assoc, hlen]
    have hle := Nat.mul_le_mul_left (rbs / SECTOR_SIZE) hroom
    simp only [layoutOf]
    rw [← Nat.mul_add]
    refine le_trans (Nat.mul_le_mul_left _ ?_) hle
    omega
  · have hwords := words_resbm1k n
    have hbuild : (layoutOf rbs supermode n (clusterBlocks rbs n) D).alloc.buildBitmap.length =
        n / 32 := by
      simp only [layoutOf, ReservedAllocator.buildBitmap, List.length_map, List.length_range]
      rw [show (allocatorAt n (clusterBlocks rbs n + 1 + (D + (rbs / 4 - 3) * 32 - 1) /
        ((rbs / 4 - 3) * 32) + ((D + (rbs / 4 - 3) * 32 - 1) / ((rbs / 4 - 3) * 32) +
        (rbs / 4 - 3) - 1) / (rbs / 4 - 3) + 1 + 1 + 1)).numreserved = n from rfl]
      omega
    rw [hbuild]
    have hs : SECTOR_SIZE = 512 := rfl
    simp only [layoutOf, clusterBlocks, hs]
    rcases blockMode_cases hmode with rfl | rfl | rfl <;> omega

theorem allocMany_ok {n : ℕ} (m : ℕ) : ∀ {k : ℕ}, k + m ≤ n →
    (allocatorAt n k).allocMany m = .ok (List.range' k m, allocatorAt n (k + m)) := by
  induction m with
  | zero => exact fun _ => rfl
  | succ m ih =>
      intro k hk
      rw [ReservedAllocator.allocMany, alloc_allocatorAt (by omega), ok_bind]
      dsimp only
      rw [ih (by omega), ok_bind, List.range'_succ, Nat.add_assoc, Nat.add_comm 1 m]
      rfl

/-- Formatting fails only up front: a format that reports a full disk has not touched the device,
because the reserved area always has room for what the formatter puts there. -/
theorem formatWithSize_fails_up_front {totalBlocks : ℕ} (h : totalBlocks < U32)
    (opts : FormatOptions) (now : Datestamp) :
    (∀ d d' msg, formatWithSize totalBlocks opts now d = .error (.err (.diskFull msg)) d' →
      d' = d) ∧
    ∃ rbs supermode n, blockMode totalBlocks = (rbs, supermode) ∧
      calcNumReserved totalBlocks rbs = .ok n ∧
      (layoutOf rbs supermode n (clusterBlocks rbs n)
        (totalBlocks - (rbs / SECTOR_SIZE * n + 2))).HasRoom := by
  obtain ⟨⟨rbs, supermode⟩, hmode⟩ : ∃ p, blockMode totalBlocks = p := ⟨_, rfl⟩
  obtain ⟨j, -, -, hn⟩ := calcNumReserved_eq h rbs
  generalize reservedOf rbs (takenAt j) = n at hn
  have hmod : totalBlocks % U32 = totalBlocks := Nat.mod_eq_of_lt h
  obtain ⟨hfits, hroom⟩ := hasRoom_layoutOf h hmode hn (Nat.sub_le _ (rbs / SECTOR_SIZE * n + 2))
  refine ⟨?_, rbs, supermode, n, hmode, hn, hroom⟩
  intro d d' msg hrun
  unfold formatWithSize at hrun
  rw [hmode] at hrun
  dsimp only at hrun
  rw [hn] at hrun
  have hlift : ∀ {α : Type} (a : α),
      (liftM (Except.ok a : Except Fault α) : EStateM Fault Device α) = pure a := fun _ => rfl
  have hr : (1024 * resbm1k n + rbs - 1) / rbs = clusterBlocks rbs n := rfl
  have hs : SECTOR_SIZE = 512 := rfl
  have hfirst : firstreserved = 2 := rfl
  have harea : rbs / SECTOR_SIZE * n + firstreserved - 1 - firstreserved + 1 + firstreserved =
      rbs / SECTOR_SIZE * n + 2 := by
    have hn32 := calcNumReserved_ok hn
    rcases blockMode_cases hmode with rfl | rfl | rfl <;> rw [hs, hfirst] <;> omega
  unfold tableBlocks at hfits
  rw [hlift, pure_bind, hr, new_eq (by omega), alloc_allocatorAt (by omega), hlift, pure_bind,
    harea, hmod] at hrun
  dsimp only at hrun hfits
  split at hrun
  · -- the size check: nothing has been written yet
    cases hrun
    rfl
  generalize (totalBlocks - (rbs / SECTOR_SIZE * n + 2) + (rbs / 4 - 3) * 32 - 1) /
    ((rbs / 4 - 3) * 32) = noBmb at *
  generalize (noBmb + (rbs / 4 - 3) - 1) / (rbs / 4 - 3) = noBmi at *
  -- behind it every allocation has room
  rw [allocMany_ok noBmb (by omega), hlift, pure_bind] at hrun
  dsimp only at hrun
  rw [allocMany_ok noBmi (by omega), hlift, pure_bind] at hrun
  dsimp only at hrun
  rw [alloc_allocatorAt (by omega), hlift, pure_bind] at hrun
  dsimp only at hrun
  rw [alloc_allocatorAt (by omega), hlift, pure_bind] at hrun
  dsimp only at hrun
  rw [alloc_allocatorAt (by omega), hlift, pure_bind] at hrun
  refine NeverFull.elim ?_ hrun
  refine (Device.neverFull_writeBlocks _ _ _).bind fun _ => ?_
  refine (Device.neverFull_writeBlocks _ _ _).bind fun _ => ?_
  refine (neverFull_lift (putAll_ne_diskFull _ _)).bind fun _ => ?_
  refine (neverFull_forM (fun _ => Device.neverFull_writeBlocks _ _ _) _).bind fun _ => ?_
  refine (neverFull_writeImage _ _ _).bind fun _ => ?_
  refine (neverFull_writeImages _ _ _ 0).bind fun _ => ?_
  have htail : ∀ (l : Layout) (res : FormatResult), NeverFull (do
      writeImages l (bmFields l) 0 l.bmBlocknrs
      writeImage l l.anidxBlk (anidxFields l)
      writeImage l l.anodeBlk (anodeFields l)
      writeImage l l.rootdirBlk rootdirFields
      Device.flush
      pure res : EStateM Fault Device FormatResult) := by
    intro l res
    refine (neverFull_writeImages _ _ _ 0).bind fun _ => ?_
    refine (neverFull_writeImage _ _ _).bind fun _ => ?_
    refine (neverFull_writeImage _ _ _).bind fun _ => ?_
    refine (neverFull_writeImage _ _ _).bind fun _ => ?_
    exact neverFull_pure _
  split
  · exact (neverFull_throw fun msg h => by cases h).bind fun _ => htail _ _
  · exact htail _ _

/-- The smallest volume and the largest one. -/
theorem formatWithSize_fails_up_front_limits :
    (∀ d d' msg, formatWithSize 67 ⟨['v'], false⟩ ⟨0, 0, 0⟩ d = .error (.err (.diskFull msg)) d' →
      d' = d) ∧
    ∃ n, calcNumReserved 4294967295 4096 = .ok n ∧
      (layoutOf 4096 true n (clusterBlocks 4096 n) (4294967295 - (8 * n + 2))).HasRoom := by
  have hmode : blockMode 4294967295 = (4096, true) := by decide
  refine ⟨(formatWithSize_fails_up_front (by decide) _ _).1, ?_⟩
  obtain ⟨rbs, supermode, n, hmode', hn, hroom⟩ := (@formatWithSize_fails_up_front 4294967295
    (by decide) ⟨['v'], false⟩ ⟨0, 0, 0⟩).2
  rw [hmode] at hmode'
  cases hmode'
  exact ⟨n, hn, hroom⟩

end Format

end Pfs3
