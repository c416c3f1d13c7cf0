import Pfs3.Faults.Flush

/-!
# What a second commit makes of a failed one

`update_rootblock` runs once on a device that refuses a write, and once more when the device
works again.  The second run finds an empty queue, so what the first run left unwritten stays
unwritten: the two runs do what a single successful one does exactly when every byte left
unwritten stands on the device already (or is one a commit rewrites anyway) and no block still
cached differs from the device.
-/

namespace Pfs3

open ByteList Stop BlockCache

/-- One byte of the device. -/
def Device.byte (d : Device) (b i : ℕ) : UInt8 := (d.sectors b).val.getD i 0

/-- Equal contents except for the datestamp of the rootblock in the sector `root`. -/
def Device.SameButDatestamp (root : ℕ) (d d' : Device) : Prop :=
  ∀ b i, i < SECTOR_SIZE →
    ¬ (b = root ∧ RB_OFF_DATESTAMP ≤ i ∧ i < RB_OFF_DATESTAMP + 4) → d.byte b i = d'.byte b i

namespace Writer

/-- The reserved block `k` lies outside of the rootblock cluster. -/
def Apart (w : Writer) (k : ℕ) : Prop :=
  k + max (w.resblocksize / SECTOR_SIZE) 1 ≤ w.firstreserved ∨
    w.firstreserved + w.vol.rootblock.rblkcluster ≤ k

/-- Reads through the volume's cache return what the device holds. -/
def CacheReads (w : Writer) : Prop :=
  ∀ k, w.Apart k → ∀ data c,
    readReserved w.vol.dev k w.resblocksize w.vol.cache = .ok data c →
      w.vol.dev.readReserved w.resblocksize k = .ok data

/-- A commit rewrites the byte `k` of the rootblock cluster: it belongs to the datestamp, to a
counter, or to the reserved bitmap. -/
def Stamps (w : Writer) (k : ℕ) : Prop :=
  (RB_OFF_DATESTAMP ≤ k ∧ k < RB_OFF_DATESTAMP + 4) ∨
  (RB_OFF_RESERVED_FREE ≤ k ∧ k < RB_OFF_RESERVED_FREE + 4) ∨
  (RB_OFF_BLOCKSFREE ≤ k ∧ k < RB_OFF_BLOCKSFREE + 4) ∨
  (SECTOR_SIZE + 12 ≤ k ∧ k < SECTOR_SIZE + 12 + w.commitWords.length * 4)

/-- The byte `i` of the sector `b` is one that a commit rewrites. -/
def InCommit (w : Writer) (b i : ℕ) : Prop :=
  w.firstreserved ≤ b ∧ b < w.firstreserved + w.vol.rootblock.rblkcluster ∧
    w.Stamps ((b - w.firstreserved) * SECTOR_SIZE + i)

/-- The sector writes of the queue. -/
def queuedSectors (w : Writer) : List (ℕ × Sector) := sectorWrites w.rescluster w.pendingWrites

/-- The first `n` sector writes of the queue take effect and no more of them. -/
structure StopsAt (w : Writer) (n : ℕ) : Prop where
  le : n ≤ w.queuedSectors.length
  clear : w.vol.dev.Clear n
  refused : n < w.queuedSectors.length → w.vol.dev.faults (w.vol.dev.attempts + n) = true

/-- The queued blocks that are on the device in full after `n` sector writes. -/
def completed (w : Writer) (n : ℕ) : List (ℕ × Bytes) :=
  if n < w.queuedSectors.length then w.pendingWrites.take (n / w.rescluster) else w.pendingWrites

/-- Nothing is lost when only the first `n` sector writes of the queue take effect: the bytes
of the others stand on the device already, except for those a commit rewrites, and every block
still cached is what the device then holds. -/
structure Harmless (w : Writer) (n : ℕ) : Prop where
  stands : ∀ b i, i < SECTOR_SIZE → ¬ w.InCommit b i →
    (w.vol.dev.puts (w.queuedSectors.take n)).byte b i = (w.vol.dev.puts w.queuedSectors).byte b i
  cached : ∀ k e, w.vol.cache.entries.lookup k = some e → w.Apart k →
    k ∉ (w.completed n).map Prod.fst →
      (w.vol.dev.puts (w.queuedSectors.take n)).readReserved w.resblocksize k = .ok e.data

variable {w : Writer}

/-! ## The stamped cluster byte by byte -/

section Stamped

variable {c c' : Bytes} {ds ds' k : ℕ}

theorem getD_stamped (hc : c.length = w.vol.rootblock.rblkcluster * SECTOR_SIZE)
    (hroom : 0 < w.vol.rootblock.rblkcluster) :
    (w.stamped ds c).getD k 0 =
      if SECTOR_SIZE + 12 ≤ k ∧ k < SECTOR_SIZE + 12 + w.commitWords.length * 4 then
        (w.commitWords.flatMap fun l => enc32 l.toNat).getD (k - (SECTOR_SIZE + 12)) 0
      else if RB_OFF_BLOCKSFREE ≤ k ∧ k < RB_OFF_BLOCKSFREE + 4 then
        (enc32 w.vol.rootblock.blocksfree).getD (k - RB_OFF_BLOCKSFREE) 0
      else if RB_OFF_RESERVED_FREE ≤ k ∧ k < RB_OFF_RESERVED_FREE + 4 then
        (enc32 w.vol.rootblock.reservedFree).getD (k - RB_OFF_RESERVED_FREE) 0
      else if RB_OFF_DATESTAMP ≤ k ∧ k < RB_OFF_DATESTAMP + 4 then
        (enc32 ds).getD (k - RB_OFF_DATESTAMP) 0
      else c.getD k 0 := by
  have hs : SECTOR_SIZE = 512 := rfl
  have hle : 512 ≤ c.length := by rw [hc, hs]; omega
  obtain ⟨-, -, -, hhead⟩ := @putHead c ds w.vol.rootblock.reservedFree
    w.vol.rootblock.blocksfree hle
  have hl₁ : (splice c RB_OFF_DATESTAMP (enc32 ds)).length = c.length :=
    length_splice (by simp [RB_OFF_DATESTAMP]; omega)
  have hl₂ : (splice (splice c RB_OFF_DATESTAMP (enc32 ds)) RB_OFF_RESERVED_FREE
      (enc32 w.vol.rootblock.reservedFree)).length = c.length :=
    (length_splice (by rw [hl₁]; simp [RB_OFF_RESERVED_FREE]; omega)).trans hl₁
  have hfit := commitWords_fit hc
  rw [← hhead] at hfit
  unfold stamped rootCluster
  rw [getD_splice hfit, length_words_bytes]
  unfold rootHead
  rw [getD_splice (by left; rw [hl₂]; simp [RB_OFF_BLOCKSFREE]; omega),
    getD_splice (by left; rw [hl₁]; simp [RB_OFF_RESERVED_FREE]; omega),
    getD_splice (by left; simp [RB_OFF_DATESTAMP]; omega)]
  rfl

theorem stamped_of_not (hc : c.length = w.vol.rootblock.rblkcluster * SECTOR_SIZE)
    (hroom : 0 < w.vol.rootblock.rblkcluster) (hk : ¬ w.Stamps k) :
    (w.stamped ds c).getD k 0 = c.getD k 0 := by
  simp only [Stamps, not_or] at hk
  obtain ⟨h₁, h₂, h₃, h₄⟩ := hk
  rw [getD_stamped hc hroom, if_neg h₄, if_neg h₃, if_neg h₂, if_neg h₁]

theorem stamped_of_stamps (hc : c.length = w.vol.rootblock.rblkcluster * SECTOR_SIZE)
    (hc' : c'.length = w.vol.rootblock.rblkcluster * SECTOR_SIZE)
    (hroom : 0 < w.vol.rootblock.rblkcluster) (hk : w.Stamps k)
    (hds : ¬ (RB_OFF_DATESTAMP ≤ k ∧ k < RB_OFF_DATESTAMP + 4)) :
    (w.stamped ds c).getD k 0 = (w.stamped ds' c').getD k 0 := by
  rw [getD_stamped hc hroom, getD_stamped hc' hroom, if_neg hds, if_neg hds]
  split
  · rfl
  · rename_i hwords
    split
    · rfl
    · rename_i hblocks
      split
      · rfl
      · rename_i hreserved
        rcases hk with h | h | h | h
        · exact absurd h hds
        · exact absurd h hreserved
        · exact absurd h hblocks
        · exact absurd h hwords

end Stamped

/-! ## Commits byte by byte -/

section Commit

variable {d d' : Device} {ds ds' b i : ℕ}

theorem getD_flatMap_range' (f : ℕ → Sector) (n : ℕ) : ∀ fr j : ℕ, j < n → i < SECTOR_SIZE →
    ((List.range' fr n).flatMap fun b => (f b).val).getD (j * SECTOR_SIZE + i) 0 =
      (f (fr + j)).val.getD i 0 := by
  induction n with
  | zero => exact fun fr j hj => absurd hj (Nat.not_lt_zero j)
  | succ n ih =>
      intro fr j hj hi
      have hlen : (f fr).val.length = SECTOR_SIZE := (f fr).property
      rw [List.range'_succ, List.flatMap_cons, List.getD_eq_getElem?_getD]
      cases j with
      | zero =>
          rw [Nat.zero_mul, Nat.zero_add, List.getElem?_append_left (by omega), Nat.add_zero,
            List.getD_eq_getElem?_getD]
      | succ j =>
          have hge : (f fr).val.length ≤ (j + 1) * SECTOR_SIZE + i := by rw [hlen, Nat.succ_mul]; omega
          have hsub : (j + 1) * SECTOR_SIZE + i - (f fr).val.length = j * SECTOR_SIZE + i := by
            rw [hlen, Nat.succ_mul]
            omega
          have hrest := ih (fr + 1) j (by omega) hi
          rw [List.getD_eq_getElem?_getD] at hrest
          rw [List.getElem?_append_right hge, hsub, hrest, Nat.add_right_comm]
          rfl

theorem getD_bytesAt (d : Device) {fr n : ℕ} (hb : fr ≤ b ∧ b < fr + n) (hi : i < SECTOR_SIZE) :
    (d.bytesAt fr n).getD ((b - fr) * SECTOR_SIZE + i) 0 = d.byte b i := by
  have hget := getD_flatMap_range' d.sectors n fr (b - fr) (by omega) hi
  rw [Nat.add_sub_cancel' hb.1] at hget
  exact hget

/-- The device after the first `n` sectors of a commit. -/
theorem byte_clusterWrites (hroom : 0 < w.vol.rootblock.rblkcluster) (n : ℕ)
    (hi : i < SECTOR_SIZE) :
    (d.puts ((w.clusterWrites ds d).take n)).byte b i =
      if w.firstreserved ≤ b ∧ b < w.firstreserved + min n w.vol.rootblock.rblkcluster then
        (w.stamped ds (d.bytesAt w.firstreserved w.vol.rootblock.rblkcluster)).getD
          ((b - w.firstreserved) * SECTOR_SIZE + i) 0
      else d.byte b i := by
  have hs : SECTOR_SIZE = 512 := rfl
  set c := d.bytesAt w.firstreserved w.vol.rootblock.rblkcluster with hcdef
  have hc : c.length = w.vol.rootblock.rblkcluster * SECTOR_SIZE := Device.length_bytesAt _ _ _
  have hlen : (w.stamped ds c).length = w.vol.rootblock.rblkcluster * SECTOR_SIZE :=
    (length_stamped_eq hc hroom).trans hc
  have hcount : (Device.sectorsOf w.vol.rootblock.rblkcluster (w.stamped ds c)).length =
      w.vol.rootblock.rblkcluster := by simp [Device.sectorsOf]
  unfold clusterWrites Device.byte
  rw [Device.take_numbered, Device.sectors_puts_numbered]
  by_cases hb : w.firstreserved ≤ b ∧ b < w.firstreserved + min n w.vol.rootblock.rblkcluster
  · have hsec : ((Device.sectorsOf w.vol.rootblock.rblkcluster (w.stamped ds c)).take n)[
        b - w.firstreserved]? = some (Sector.ofBytes
          ((w.stamped ds c).drop ((b - w.firstreserved) * SECTOR_SIZE))) := by
      rw [List.getElem?_take, if_pos (by omega)]
      simp only [Device.sectorsOf, List.getElem?_map]
      rw [List.getElem?_range (by omega)]
      rfl
    have hmul : (b - w.firstreserved + 1) * 512 ≤ w.vol.rootblock.rblkcluster * 512 :=
      Nat.mul_le_mul_right 512 (by omega)
    have htake : (Sector.ofBytes ((w.stamped ds c).drop
        ((b - w.firstreserved) * SECTOR_SIZE))).val =
        ((w.stamped ds c).drop ((b - w.firstreserved) * SECTOR_SIZE)).take 512 := by
      refine Sector.ofBytes_take ?_
      rw [List.length_drop, hlen, hs]
      omega
    rw [if_pos hb.1, if_pos hb, hsec, Option.getD_some, htake, List.getD_eq_getElem?_getD,
      List.getElem?_take, if_pos (by omega), List.getElem?_drop, List.getD_eq_getElem?_getD]
  · rw [if_neg hb]
    by_cases hle : w.firstreserved ≤ b
    · have hnone : ((Device.sectorsOf w.vol.rootblock.rblkcluster (w.stamped ds c)).take n)[
          b - w.firstreserved]? = none := by
        rw [List.getElem?_eq_none_iff, List.length_take, hcount]
        omega
      rw [if_pos hle, hnone, Option.getD_none]
    · rw [if_neg hle]

theorem length_clusterWrites : (w.clusterWrites ds d).length = w.vol.rootblock.rblkcluster := by
  simp [clusterWrites, Device.length_numbered, Device.sectorsOf]

/-- A commit, finished or not, leaves alone every byte it does not stamp. -/
theorem byte_of_not_inCommit (hroom : 0 < w.vol.rootblock.rblkcluster) (n : ℕ)
    (hi : i < SECTOR_SIZE) (hb : ¬ w.InCommit b i) :
    (d.puts ((w.clusterWrites ds d).take n)).byte b i = d.byte b i := by
  have hc := Device.length_bytesAt d w.firstreserved w.vol.rootblock.rblkcluster
  rw [byte_clusterWrites hroom n hi]
  split
  · rename_i hin
    have hin' : w.firstreserved ≤ b ∧ b < w.firstreserved + w.vol.rootblock.rblkcluster := by
      omega
    rw [stamped_of_not hc hroom fun h => hb ⟨hin'.1, hin'.2, h⟩, getD_bytesAt d hin' hi]
  · rfl

/-- Two commits of the same writer leave the same but for the datestamp exactly when the devices
agreed on every byte that a commit does not rewrite. -/
theorem sameButDatestamp_iff (hroom : 0 < w.vol.rootblock.rblkcluster) :
    Device.SameButDatestamp w.firstreserved (d.puts (w.clusterWrites ds d))
        (d'.puts (w.clusterWrites ds' d')) ↔
      ∀ b i, i < SECTOR_SIZE → ¬ w.InCommit b i → d.byte b i = d'.byte b i := by
  have hc := Device.length_bytesAt d w.firstreserved w.vol.rootblock.rblkcluster
  have hc' := Device.length_bytesAt d' w.firstreserved w.vol.rootblock.rblkcluster
  have hall : ∀ (e : Device) ds, (w.clusterWrites ds e).take w.vol.rootblock.rblkcluster =
      w.clusterWrites ds e := fun e ds => List.take_of_length_le (le_of_eq length_clusterWrites)
  constructor
  · intro h b i hi hb
    have hnot : ¬ (b = w.firstreserved ∧ RB_OFF_DATESTAMP ≤ i ∧ i < RB_OFF_DATESTAMP + 4) := by
      rintro ⟨rfl, hlo, hhi⟩
      refine hb ⟨le_rfl, by omega, Or.inl ?_⟩
      rw [Nat.sub_self]
      omega
    have hboth := h b i hi hnot
    rw [← hall d ds, ← hall d' ds', byte_of_not_inCommit hroom _ hi hb,
      byte_of_not_inCommit hroom _ hi hb] at hboth
    exact hboth
  · intro h b i hi hds
    by_cases hb : w.InCommit b i
    · obtain ⟨hlo, hhi, hstamp⟩ := hb
      rw [← hall d ds, ← hall d' ds', byte_clusterWrites hroom _ hi, byte_clusterWrites hroom _ hi,
        if_pos (by omega), if_pos (by omega)]
      refine stamped_of_stamps hc hc' hroom hstamp fun hk => hds ?_
      have hs : SECTOR_SIZE = 512 := rfl
      simp only [RB_OFF_DATESTAMP, hs] at hk ⊢
      omega
    · rw [← hall d ds, ← hall d' ds', byte_of_not_inCommit hroom _ hi hb,
        byte_of_not_inCommit hroom _ hi hb]
      exact h b i hi hb

/-- A commit, finished or not, leaves alone the reserved blocks outside of its cluster. -/
theorem readReserved_clusterWrites {k : ℕ} (hk : w.Apart k) (n : ℕ) :
    (d.puts ((w.clusterWrites ds d).take n)).readReserved w.resblocksize k =
      d.readReserved w.resblocksize k := by
  have htotal := (d.puts_fields ((w.clusterWrites ds d).take n)).2.2.1
  have hbytes : (d.puts ((w.clusterWrites ds d).take n)).bytesAt k
      (max (w.resblocksize / SECTOR_SIZE) 1) =
      d.bytesAt k (max (w.resblocksize / SECTOR_SIZE) 1) := by
    refine Device.bytesAt_congr fun i hlo hhi => ?_
    unfold clusterWrites
    rw [Device.take_numbered, Device.sectors_puts_numbered]
    split
    · rename_i hle
      have hnone : ((Device.sectorsOf w.vol.rootblock.rblkcluster (w.stamped ds (d.bytesAt
          w.firstreserved w.vol.rootblock.rblkcluster))).take n)[i - w.firstreserved]? = none := by
        rw [List.getElem?_eq_none_iff, List.length_take]
        simp only [Device.sectorsOf, List.length_map, List.length_range]
        rcases hk with hk | hk <;> omega
      rw [hnone, Option.getD_none]
    · rfl
  unfold Device.readReserved Device.readBlocks
  rw [htotal, hbytes]

end Commit

/-! ## The two runs -/

theorem cacheReads_iff : w.CacheReads ↔
    ∀ k e, w.vol.cache.entries.lookup k = some e → w.Apart k →
      w.vol.dev.readReserved w.resblocksize k = .ok e.data := by
  constructor
  · intro h k e hl hk
    exact h k hk _ _ (readReserved_hit hl)
  · intro h k hk data c hread
    cases hl : w.vol.cache.entries.lookup k with
    | some e =>
        rw [readReserved_hit hl] at hread
        injection hread with hdata
        rw [← hdata]
        exact h k e hl hk
    | none =>
        rw [readReserved_miss hl] at hread
        cases hdev : w.vol.dev.readReserved w.resblocksize k with
        | error f =>
            rw [hdev] at hread
            cases hread
        | ok buf =>
            rw [hdev] at hread
            injection hread with hdata
            rw [hdata]

/-- The writer after a flush that reached the device `d` and completed the blocks `q`. -/
def flushEnd (w : Writer) (d : Device) (q : List (ℕ × Bytes)) : Writer :=
  { w with pendingWrites := [] }.flushedTo d q

/-- `flush_pending`, read off the run without faults. -/
theorem flushPending_run {e : Writer} (h : flushPending w.unfailing = .ok () e) :
    e = (w.flushEnd (w.vol.dev.puts w.queuedSectors) w.pendingWrites).unfailing ∧
    ((w.vol.dev.Clear w.queuedSectors.length ∧
        flushPending w = .ok () (w.flushEnd (w.vol.dev.puts w.queuedSectors) w.pendingWrites)) ∨
      ∃ n < w.queuedSectors.length, w.vol.dev.Clear n ∧
        w.vol.dev.faults (w.vol.dev.attempts + n) = true ∧
        flushPending w = .error (.err .io)
          (w.flushEnd (w.vol.dev.stopped (w.queuedSectors.take n))
            (w.pendingWrites.take (n / w.rescluster)))) := by
  have hstart : ∀ v : Writer, flushPending v = (do
      flushWrites v.pendingWrites
      onDev Device.flush : WriterM Unit) { v with pendingWrites := [] } := fun _ => rfl
  rw [hstart] at h
  obtain ⟨_, w', hwrites, hflush⟩ := of_bind_eq_ok h
  injection hflush with _ hflush
  obtain ⟨he, hruns⟩ := flushWrites_run w.pendingWrites (w := { w with pendingWrites := [] }) hwrites
  refine ⟨hflush.symm.trans he, ?_⟩
  rw [hstart]
  rcases hruns with ⟨hclear, hrun⟩ | ⟨n, hn, hclear, hfault, hrun⟩
  · exact Or.inl ⟨hclear, bind_of_ok hrun⟩
  · exact Or.inr ⟨n, hn, hclear, hfault, bind_of_error hrun⟩

/-- With an empty queue an update is a commit. -/
theorem updateRootblock_of_nil (h : w.pendingWrites = []) :
    updateRootblock w = commitCluster w := by
  have hflush : flushPending w = .ok () w := by
    have hself : ({ w with pendingWrites := [] } : Writer) = w := by rw [← h]
    have hstart : flushPending w = .ok () { w with pendingWrites := [] } := by
      unfold flushPending
      rw [bind_of_ok (rfl : (get : WriterM Writer) _ = .ok _ _), h]
      rfl
    rw [hstart, hself]
  exact bind_of_ok hflush

/-- A commit on a device that works. -/
theorem commitCluster_ok {e : Writer} (h : commitCluster w = .ok () e)
    (hworks : ∀ i, w.vol.dev.attempts ≤ i → w.vol.dev.faults i = false) :
    e = { w with
      datestamp := w.datestamp + 1
      vol.dev := w.vol.dev.puts (w.clusterWrites (w.datestamp + 1) w.vol.dev) } := by
  rcases commitCluster_run (mayCommit_of_ok h) with ⟨-, hrun⟩ | ⟨n, -, -, hfault, -⟩
  · have hsame := h.symm.trans hrun
    injection hsame with _ hsame
  · rw [hworks _ (Nat.le_add_right _ _)] at hfault
    cases hfault

/-- Only one number of sector writes of the queue takes effect. -/
theorem StopsAt.unique {n n' : ℕ} (h : w.StopsAt n) (h' : w.StopsAt n') : n = n' := by
  have hone : ∀ {a b : ℕ}, w.StopsAt a → w.StopsAt b → ¬ a < b := by
    intro a b ha hb hlt
    have hclear := hb.clear a hlt
    rw [ha.refused (by have := hb.le; omega)] at hclear
    cases hclear
  have h₁ := hone h h'
  have h₂ := hone h' h
  omega

/-- The two runs read off the writer before them: what they leave depends on how many sector
writes of the queue took effect in the first. -/
theorem two_runs {w₁ w₂ w' : Writer} {f : Fault} (hfail : updateRootblock w = .error f w₁)
    (hworks : ∀ i, w₁.vol.dev.attempts ≤ i → w₁.vol.dev.faults i = false)
    (hagain : updateRootblock w₁ = .ok () w₂)
    (hsingle : updateRootblock w.unfailing = .ok () w') :
    ∃ n, w.StopsAt n ∧
      (Device.SameButDatestamp w.firstreserved w₂.vol.dev w'.vol.dev ↔
        ∀ b i, i < SECTOR_SIZE → ¬ w.InCommit b i →
          (w.vol.dev.puts (w.queuedSectors.take n)).byte b i =
            (w.vol.dev.puts w.queuedSectors).byte b i) ∧
      (w₂.CacheReads ↔ ∀ k e, w.vol.cache.entries.lookup k = some e → w.Apart k →
        k ∉ (w.completed n).map Prod.fst →
          (w.vol.dev.puts (w.queuedSectors.take n)).readReserved w.resblocksize k =
            .ok e.data) := by
  obtain ⟨_, e, hflush, hcommit⟩ := of_bind_eq_ok hsingle
  obtain ⟨he, hruns⟩ := flushPending_run hflush
  subst he
  have hmay := mayCommit_of_ok hcommit
  have hw' := commitCluster_ok hcommit fun _ _ => rfl
  -- the state after the first call: how far it came, its device, and what it dropped
  obtain ⟨n, d₁, ds₁, hstop, hw₁, hblocks, hbytes⟩ : ∃ n d₁ ds₁, w.StopsAt n ∧
      w₁ = { w.flushEnd d₁ (w.completed n) with datestamp := ds₁ } ∧
      (∀ k, w.Apart k → d₁.readReserved w.resblocksize k =
        (w.vol.dev.puts (w.queuedSectors.take n)).readReserved w.resblocksize k) ∧
      (∀ b i, i < SECTOR_SIZE → ¬ w.InCommit b i →
        d₁.byte b i = (w.vol.dev.puts (w.queuedSectors.take n)).byte b i) := by
    rcases hruns with ⟨hclear, hrun⟩ | ⟨n, hn, hclear, hfault, hrun⟩
    · -- the queue was written, so the rootblock cluster was not
      have hV : (w.flushEnd (w.vol.dev.puts w.queuedSectors) w.pendingWrites).MayCommit :=
        ⟨hmay.writable, hmay.inside, hmay.room, hmay.datestamp⟩
      have hfail' := (bind_of_ok hrun).symm.trans hfail
      have hdone : w.completed w.queuedSectors.length = w.pendingWrites := if_neg (lt_irrefl _)
      have hall : w.queuedSectors.take w.queuedSectors.length = w.queuedSectors :=
        List.take_length
      rcases commitCluster_run hV with ⟨-, hok⟩ | ⟨n, -, -, -, herr⟩
      · cases hok.symm.trans hfail'
      · have hsame := herr.symm.trans hfail'
        injection hsame with _ hw₁
        refine ⟨w.queuedSectors.length, (w.vol.dev.puts w.queuedSectors).stopped
          ((w.clusterWrites (w.datestamp + 1) (w.vol.dev.puts w.queuedSectors)).take n),
          w.datestamp + 1, ⟨le_rfl, hclear, fun h => absurd h (lt_irrefl _)⟩,
          by rw [hdone]; exact hw₁.symm, fun k hk => ?_, fun b i hi hb => ?_⟩
        · rw [hall]
          exact readReserved_clusterWrites hk n
        · rw [hall]
          exact byte_of_not_inCommit hmay.room n hi hb
    · have hsame := (bind_of_error hrun).symm.trans hfail
      injection hsame with _ hw₁
      have hdone : w.completed n = w.pendingWrites.take (n / w.rescluster) := if_pos hn
      exact ⟨n, w.vol.dev.stopped (w.queuedSectors.take n), w.datestamp,
        ⟨hn.le, hclear, fun _ => hfault⟩, by rw [hdone]; exact hw₁.symm,
        fun _ _ => rfl, fun _ _ _ _ => rfl⟩
  subst hw₁
  rw [updateRootblock_of_nil rfl] at hagain
  have hw₂ := commitCluster_ok hagain hworks
  subst hw₂ hw'
  have hsame := @sameButDatestamp_iff w d₁ (w.vol.dev.puts w.queuedSectors) (ds₁ + 1)
    (w.datestamp + 1) hmay.room
  have hsingle' : Device.SameButDatestamp w.firstreserved (d₁.puts (w.clusterWrites (ds₁ + 1) d₁))
      ((w.vol.dev.puts w.queuedSectors).unfailing.puts
        (w.clusterWrites (w.datestamp + 1) (w.vol.dev.puts w.queuedSectors))) ↔
      ∀ b i, i < SECTOR_SIZE → ¬ w.InCommit b i →
        d₁.byte b i = (w.vol.dev.puts w.queuedSectors).byte b i := by
    rw [← Device.unfailing_puts]
    exact hsame
  have hcache : ∀ {v : Writer}, v = { w.flushEnd d₁ (w.completed n) with
        datestamp := ds₁ + 1
        vol.dev := d₁.puts (w.clusterWrites (ds₁ + 1) d₁) } →
      (v.CacheReads ↔ ∀ k e, w.vol.cache.entries.lookup k = some e → w.Apart k →
        k ∉ (w.completed n).map Prod.fst →
          (w.vol.dev.puts (w.queuedSectors.take n)).readReserved w.resblocksize k =
            .ok e.data) := by
    rintro v rfl
    have hlookup := lookup_dropped (w.completed n) w.vol.cache
    have hread : ∀ k, w.Apart k →
        (d₁.puts (w.clusterWrites (ds₁ + 1) d₁)).readReserved w.resblocksize k =
          (w.vol.dev.puts (w.queuedSectors.take n)).readReserved w.resblocksize k := by
      intro k hk
      have hcommit := @readReserved_clusterWrites w d₁ (ds₁ + 1) k hk
        w.vol.rootblock.rblkcluster
      rw [List.take_of_length_le (le_of_eq length_clusterWrites)] at hcommit
      exact hcommit.trans (hblocks k hk)
    rw [cacheReads_iff]
    constructor
    · intro h k e hl hk hnot
      rw [← hread k hk]
      exact h k e ((hlookup k).trans ((if_neg hnot).trans hl)) hk
    · intro h k e hl hk
      have hl' := (hlookup k).symm.trans hl
      by_cases hmem : k ∈ (w.completed n).map Prod.fst
      · rw [if_pos hmem] at hl'
        cases hl'
      · rw [if_neg hmem] at hl'
        exact (hread k hk).trans (h k e hl' hk hmem)
  refine ⟨n, hstop, hsingle'.trans ?_, hcache rfl⟩
  constructor
  · exact fun h b i hi hb => (hbytes b i hi hb).symm.trans (h b i hi hb)
  · exact fun h b i hi hb => (hbytes b i hi hb).trans (h b i hi hb)

/-- After a failed update and a successful one, the device stands where a single successful one
leaves it and the cache reads what it holds, exactly when what the failed one left undone was
harmless. -/
theorem failed_flush_recovers {w₁ w₂ w' : Writer} {f : Fault}
    (hfail : updateRootblock w = .error f w₁)
    (hworks : ∀ i, w₁.vol.dev.attempts ≤ i → w₁.vol.dev.faults i = false)
    (hagain : updateRootblock w₁ = .ok () w₂)
    (hsingle : updateRootblock w.unfailing = .ok () w') :
    (Device.SameButDatestamp w.firstreserved w₂.vol.dev w'.vol.dev ∧ w₂.CacheReads) ↔
      ∀ n, w.StopsAt n → w.Harmless n := by
  obtain ⟨n, hstop, hsame, hcache⟩ := two_runs hfail hworks hagain hsingle
  constructor
  · rintro ⟨hdev, hreads⟩ n' hn'
    have hn : n = n' := hstop.unique hn'
    subst hn
    exact ⟨hsame.mp hdev, hcache.mp hreads⟩
  · intro h
    obtain ⟨hstands, hcached⟩ := h n hstop
    exact ⟨hsame.mpr hstands, hcache.mpr hcached⟩

/-! ## A queue that fails -/

/-- On a device without faults the blocks of a queue that lies inside of it are written. -/
theorem flushWrites_fits (q : List (ℕ × Bytes)) : ∀ {w : Writer}, w.vol.dev.writable = true →
    (∀ i, w.vol.dev.faults i = false) → (∀ p ∈ q, p.1 + w.rescluster ≤ w.vol.dev.total) →
    ∃ d c, flushWrites q w = .ok () { w with vol.dev := d, vol.cache := c } ∧
      d.writable = true ∧ d.total = w.vol.dev.total ∧ d.faults = w.vol.dev.faults := by
  induction q with
  | nil => exact fun hw _ _ => ⟨_, _, rfl, hw, rfl, rfl⟩
  | cons p q ih =>
      intro w hw hf hq
      have hwrite : Device.writeReservedBlocks p.1 p.2 w.rescluster w.vol.dev = .ok () _ :=
        Device.forM_writeBlock ⟨hw, hf⟩ (hq p List.mem_cons_self)
          fun i => Sector.ofBytes (p.2.drop (i * SECTOR_SIZE))
      obtain ⟨hsound, htotal⟩ := Device.sound_putRange ⟨hw, hf⟩ p.1
        (fun i => Sector.ofBytes (p.2.drop (i * SECTOR_SIZE))) w.rescluster
      generalize w.vol.dev.putRange p.1
        (fun i => Sector.ofBytes (p.2.drop (i * SECTOR_SIZE))) w.rescluster = d
        at hwrite hsound htotal
      have hfaults : d.faults = w.vol.dev.faults := funext fun i => (hsound.faults i).trans (hf i).symm
      obtain ⟨d', c, hrun, hw', htotal', hfaults'⟩ := @ih
        (invalidate p.1 { w with vol.dev := d }) hsound.writable hsound.faults
        fun r hr => (hq r (List.mem_cons_of_mem _ hr)).trans (le_of_eq htotal.symm)
      refine ⟨d', c, ?_, hw', htotal'.trans htotal, hfaults'.trans hfaults⟩
      rw [flushWrites, bind_of_ok (rfl : (get : WriterM Writer) _ = .ok _ _),
        bind_of_ok (onDev_ok hwrite)]
      exact hrun

/-- An update whose writes lie inside of a device without faults succeeds. -/
theorem updateRootblock_fits (hw : w.vol.dev.writable = true)
    (hf : ∀ i, w.vol.dev.faults i = false)
    (hq : ∀ p ∈ w.pendingWrites, p.1 + w.rescluster ≤ w.vol.dev.total)
    (hinside : w.firstreserved + w.vol.rootblock.rblkcluster ≤ w.vol.dev.total)
    (hroom : 0 < w.vol.rootblock.rblkcluster) (hds : w.datestamp + 1 < U32) :
    ∃ e, updateRootblock w = .ok () e := by
  obtain ⟨d, c, hrun, hw', htotal, hfaults⟩ := flushWrites_fits w.pendingWrites
    (w := { w with pendingWrites := [] }) hw hf hq
  have hflush : flushPending w =
      .ok () { w with pendingWrites := [], vol.dev := d, vol.cache := c } := bind_of_ok hrun
  have hmay : MayCommit { w with pendingWrites := [], vol.dev := d, vol.cache := c } :=
    ⟨hw', hinside.trans (le_of_eq htotal.symm), hroom, hds⟩
  rcases commitCluster_run hmay with ⟨-, hok⟩ | ⟨n, -, -, hfault, -⟩
  · exact ⟨_, (bind_of_ok hflush).trans hok⟩
  · have hno : d.faults (d.attempts + n) = false := by
      rw [hfaults]
      exact hf _
    rw [hno] at hfault
    cases hfault

/-- Of the writes of an update, the device refuses the `k`-th one and no other: the update
fails, and the next one succeeds. -/
theorem refused_once {k : ℕ} (hw : w.vol.dev.writable = true)
    (hq : ∀ p ∈ w.pendingWrites, p.1 + w.rescluster ≤ w.vol.dev.total)
    (hinside : w.firstreserved + w.vol.rootblock.rblkcluster ≤ w.vol.dev.total)
    (hroom : 0 < w.vol.rootblock.rblkcluster) (hds : w.datestamp + 2 < U32)
    (hk : k < w.queuedSectors.length + w.vol.rootblock.rblkcluster)
    (hplan : ∀ i, w.vol.dev.faults i = (i == w.vol.dev.attempts + k)) :
    ∃ w₁ w₂ w', updateRootblock w = .error (.err .io) w₁ ∧
      (∀ i, w₁.vol.dev.attempts ≤ i → w₁.vol.dev.faults i = false) ∧
      updateRootblock w₁ = .ok () w₂ ∧ updateRootblock w.unfailing = .ok () w' := by
  obtain ⟨w', hsingle⟩ := updateRootblock_fits (w := w.unfailing) hw (fun _ => rfl) hq hinside
    hroom (show w.datestamp + 1 < U32 by omega)
  obtain ⟨_, e, hflush, -⟩ := of_bind_eq_ok hsingle
  obtain ⟨-, hruns⟩ := flushPending_run hflush
  have hagain : ∀ w₁ : Writer, w₁.pendingWrites = [] → w₁.MayCommit →
      w₁.vol.dev.faults = w.vol.dev.faults → w.vol.dev.attempts + k < w₁.vol.dev.attempts →
      (∀ i, w₁.vol.dev.attempts ≤ i → w₁.vol.dev.faults i = false) ∧
        ∃ w₂, updateRootblock w₁ = .ok () w₂ := by
    intro w₁ hnil hmay hfaults hpast
    have hworks : ∀ i, w₁.vol.dev.attempts ≤ i → w₁.vol.dev.faults i = false := by
      intro i hi
      rw [hfaults, hplan]
      simpa using (show i ≠ w.vol.dev.attempts + k by omega)
    refine ⟨hworks, ?_⟩
    rw [updateRootblock_of_nil hnil]
    rcases commitCluster_run hmay with ⟨-, hok⟩ | ⟨n, -, -, hfault, -⟩
    · exact ⟨_, hok⟩
    · rw [hworks _ (Nat.le_add_right _ _)] at hfault
      cases hfault
  obtain ⟨hfaults, hattempts, htotal, hwritable⟩ := w.vol.dev.puts_fields w.queuedSectors
  rcases hruns with ⟨hclear, hrun⟩ | ⟨n, hn, -, hfault, hrun⟩
  · -- the queue is written, a sector of the rootblock cluster is refused
    have hmay : (w.flushEnd (w.vol.dev.puts w.queuedSectors) w.pendingWrites).MayCommit :=
      ⟨hwritable.trans hw, hinside.trans (le_of_eq htotal.symm), hroom,
        show w.datestamp + 1 < U32 by omega⟩
    rcases commitCluster_run hmay with ⟨hclear', -⟩ | ⟨n, hn, -, hfault, herr⟩
    · have hlate : ¬ k < w.queuedSectors.length := by
        intro hlt
        have hno := hclear k hlt
        rw [hplan] at hno
        simp at hno
      have hno := hclear' (k - w.queuedSectors.length) (by
        rw [length_clusterWrites]
        exact (by omega : k - w.queuedSectors.length < w.vol.rootblock.rblkcluster))
      change (w.vol.dev.puts w.queuedSectors).faults ((w.vol.dev.puts w.queuedSectors).attempts +
        (k - w.queuedSectors.length)) = false at hno
      rw [hfaults, hattempts, hplan, beq_eq_false_iff_ne] at hno
      omega
    · have hkn : w.vol.dev.attempts + k = (w.vol.dev.puts w.queuedSectors).attempts + n := by
        change (w.vol.dev.puts w.queuedSectors).faults
          ((w.vol.dev.puts w.queuedSectors).attempts + n) = true at hfault
        rw [hfaults, hplan, beq_iff_eq] at hfault
        exact hfault.symm
      obtain ⟨hf', -, ht', hw'⟩ := (w.vol.dev.puts w.queuedSectors).puts_fields
        ((w.clusterWrites (w.datestamp + 1) (w.vol.dev.puts w.queuedSectors)).take n)
      have hlen : ((w.clusterWrites (w.datestamp + 1)
          (w.vol.dev.puts w.queuedSectors)).take n).length = n := by
        rw [List.length_take]
        exact min_eq_left hn.le
      obtain ⟨hworks, w₂, hok⟩ := hagain
        { w.flushEnd ((w.vol.dev.puts w.queuedSectors).stopped ((w.clusterWrites (w.datestamp + 1)
            (w.vol.dev.puts w.queuedSectors)).take n)) w.pendingWrites with
          datestamp := w.datestamp + 1 } rfl
        ⟨hw'.trans (hwritable.trans hw), hinside.trans (le_of_eq (ht'.trans htotal).symm), hroom,
          show w.datestamp + 1 + 1 < U32 by omega⟩
        (hf'.trans hfaults) (by
          show w.vol.dev.attempts + k < (w.vol.dev.puts w.queuedSectors).attempts +
            ((w.clusterWrites (w.datestamp + 1) (w.vol.dev.puts w.queuedSectors)).take n).length + 1
          rw [hlen]
          omega)
      exact ⟨_, w₂, w', (bind_of_ok hrun).trans herr, hworks, hok, hsingle⟩
  · -- a sector of the queue is refused
    have hkn : n = k := by
      rw [hplan, beq_iff_eq] at hfault
      omega
    obtain ⟨hf', -, ht', hw'⟩ := w.vol.dev.puts_fields (w.queuedSectors.take n)
    have hlen : (w.queuedSectors.take n).length = n := by
      rw [List.length_take]
      exact min_eq_left hn.le
    obtain ⟨hworks, w₂, hok⟩ := hagain (w.flushEnd (w.vol.dev.stopped (w.queuedSectors.take n))
        (w.pendingWrites.take (n / w.rescluster))) rfl
      ⟨hw'.trans hw, hinside.trans (le_of_eq ht'.symm), hroom, show w.datestamp + 1 < U32 by omega⟩
      hf' (by
        show w.vol.dev.attempts + k < w.vol.dev.attempts + (w.queuedSectors.take n).length + 1
        rw [hlen]
        omega)
    exact ⟨_, w₂, w', bind_of_error hrun, hworks, hok, hsingle⟩

/-- A small volume of 512-byte reserved blocks with one block queued; `refuses` is the fault
plan of its device. -/
def queuedBlock (refuses : ℕ → Bool) : Writer :=
  let rb : Rootblock :=
    { disktype := ID_PFS_DISK, options := 0, datestamp := 1, diskname := [], lastreserved := 5,
      firstreserved := 2, reservedFree := 2, reservedBlksize := 512, rblkcluster := 1,
      blocksfree := 1, alwaysfree := 0, disksize := 8, extension := 0, bitmapindex := [],
      indexblocks := [] }
  { vol :=
      { dev := ⟨fun _ => .ofBytes [], 8, true, refuses, 0, []⟩
        cache := .new
        rootblock := rb
        rootblockExt := none
        anodes := .new rb none
        bitmap := .new rb }
    resblocksize := 512, rescluster := 1, indexPerBlock := 125, anodesPerBlock := 41
    firstreserved := 2, numreserved := 4, bitmapstart := 6, datestamp := 1
    resBitmap := [0x30000000#32], dataBm := []
    pendingWrites := [(4, List.replicate 512 1)]
    clock := fun _ => ⟨0, 0, 0⟩, asked := 0 }

/-- The runs of the volume with one queued block: of the two sector writes of its update, the
`k`-th is refused. -/
theorem queuedBlock_runs (k : ℕ) (hk : k < 2) :
    ∃ w₁ w₂ w', updateRootblock (queuedBlock fun n => n == k) = .error (.err .io) w₁ ∧
      (∀ i, w₁.vol.dev.attempts ≤ i → w₁.vol.dev.faults i = false) ∧
      updateRootblock w₁ = .ok () w₂ ∧
      updateRootblock (queuedBlock fun n => n == k).unfailing = .ok () w' := by
  refine refused_once (k := k) rfl ?_ ?_ ?_ ?_ hk ?_
  · intro p hp
    have hp : p = (4, List.replicate 512 1) := List.mem_singleton.mp hp
    subst hp
    show 4 + 1 ≤ 8
    omega
  · show 2 + 1 ≤ 8
    omega
  · show 0 < 1
    omega
  · show 1 + 2 < U32
    decide
  · intro i
    show (i == k) = (i == 0 + k)
    rw [Nat.zero_add]

/-- The rootblock refused: everything queued is on the device, and a second update makes up for
the first. -/
theorem failed_flush_recovers_rootblock : ∃ w₁ w₂ w',
    updateRootblock (queuedBlock fun n => n == 1) = .error (.err .io) w₁ ∧
      updateRootblock w₁ = .ok () w₂ ∧
      updateRootblock (queuedBlock fun n => n == 1).unfailing = .ok () w' ∧
      Device.SameButDatestamp 2 w₂.vol.dev w'.vol.dev ∧ w₂.CacheReads := by
  obtain ⟨w₁, w₂, w', hfail, hworks, hagain, hsingle⟩ := queuedBlock_runs 1 (by omega)
  refine ⟨w₁, w₂, w', hfail, hagain, hsingle,
    (failed_flush_recovers hfail hworks hagain hsingle).mpr fun n hn => ?_⟩
  have hlen : (queuedBlock fun n => n == 1).queuedSectors.length = 1 := rfl
  have hone : n = 1 := by
    have hle := hn.le
    rw [hlen] at hle
    by_contra hne
    have hzero : n = 0 := by omega
    have hrefused := hn.refused (by rw [hlen]; omega)
    rw [hzero] at hrefused
    cases hrefused
  subst hone
  exact ⟨fun _ _ _ _ => rfl, fun _ _ hl => by cases hl⟩

/-- The queued block refused: the second update reports success, and the block is lost. -/
theorem failed_flush_loses : ∃ w₁ w₂ w',
    updateRootblock (queuedBlock fun n => n == 0) = .error (.err .io) w₁ ∧
      (∀ i, w₁.vol.dev.attempts ≤ i → w₁.vol.dev.faults i = false) ∧
      updateRootblock w₁ = .ok () w₂ ∧
      updateRootblock (queuedBlock fun n => n == 0).unfailing = .ok () w' ∧
      ¬ (Device.SameButDatestamp 2 w₂.vol.dev w'.vol.dev ∧ w₂.CacheReads) := by
  obtain ⟨w₁, w₂, w', hfail, hworks, hagain, hsingle⟩ := queuedBlock_runs 0 (by omega)
  refine ⟨w₁, w₂, w', hfail, hworks, hagain, hsingle, fun hrec => ?_⟩
  obtain ⟨n, hn, hsame, -⟩ := two_runs hfail hworks hagain hsingle
  have hzero : n = 0 := by
    by_contra hne
    have hclear := hn.clear 0 (by omega)
    cases hclear
  subst hzero
  have hout : ¬ (queuedBlock fun n => n == 0).InCommit 4 0 := by
    rintro ⟨-, hlt, -⟩
    have hlt : 4 < 2 + 1 := hlt
    omega
  have hbyte := hsame.mp hrec.1 4 0 (by decide) hout
  have hnew : (Sector.ofBytes (List.replicate 512 1)).val.getD 0 0 = 1 := by
    rw [Sector.ofBytes_of_length List.length_replicate]
    rfl
  have hold : (Sector.ofBytes []).val.getD 0 0 = 0 := rfl
  exact absurd (hold.symm.trans (hbyte.trans hnew)) (by decide)

end Writer

end Pfs3
