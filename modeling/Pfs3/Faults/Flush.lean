import Pfs3.Faults.Writes
import Pfs3.Store.FormatRun
import Pfs3.Store.SimCommit

/-!
# Flushing the queue on a device that may fail

`flush_pending` empties the queue before it writes the blocks.  Its run on a device with a fault
plan is either the run on the device without one, or it stops at a refused write; then the
sectors before that write are on the device, the blocks completed are dropped from the cache,
and the queue is empty all the same.
-/

namespace Pfs3

open ByteList Stop BlockCache

namespace Writer

/-- The writer on a device without faults. -/
def unfailing (w : Writer) : Writer := setVol { w.vol with dev := w.vol.dev.unfailing } w

/-- The sector writes of queued blocks, in the order `flush_pending` issues them. -/
def sectorWrites (rescluster : ℕ) (q : List (ℕ × Bytes)) : List (ℕ × Sector) :=
  q.flatMap fun p => Device.reservedWrites rescluster p.1 p.2

/-- The cache after the given blocks were written. -/
def dropped (q : List (ℕ × Bytes)) (c : BlockCache) : BlockCache :=
  q.foldl (fun c p => c.invalidate p.1) c

/-- The writer with the device `d` and the given blocks dropped from the cache. -/
def flushedTo (w : Writer) (d : Device) (q : List (ℕ × Bytes)) : Writer :=
  setVol { w.vol with dev := d, cache := dropped q w.vol.cache } w

variable {w e : Writer}

theorem lookup_dropped (q : List (ℕ × Bytes)) : ∀ (c : BlockCache) (k : ℕ),
    (dropped q c).entries.lookup k =
      if k ∈ q.map Prod.fst then none else c.entries.lookup k := by
  induction q with
  | nil => exact fun c k => rfl
  | cons p q ih =>
      intro c k
      have hrest := ih (c.invalidate p.1) k
      have hfilter := lookup_filter_ne c.entries p.1 k
      change (c.invalidate p.1).entries.lookup k = _ at hfilter
      rw [hfilter] at hrest
      refine hrest.trans ?_
      simp only [List.map_cons, List.mem_cons]
      by_cases hq : k ∈ q.map Prod.fst
      · rw [if_pos hq, if_pos (Or.inr hq)]
      · by_cases hk : k = p.1
        · rw [if_neg hq, if_pos hk, if_pos (Or.inl hk)]
        · rw [if_neg hq, if_neg hk, if_neg (not_or.mpr ⟨hk, hq⟩)]

theorem onDev_error {α : Type} {m : EStateM Fault Device α} {f : Fault} {d : Device}
    (h : m w.vol.dev = .error f d) : onDev m w = .error f { w with vol.dev := d } := by
  simp only [onDev, onVol, zoom, setVol, h]

theorem onDev_inv {α : Type} {m : EStateM Fault Device α} {a : α} (h : onDev m w = .ok a e) :
    ∃ d, m w.vol.dev = .ok a d ∧ e = { w with vol.dev := d } := by
  cases hm : m w.vol.dev with
  | ok b d =>
      have hrun := h.symm.trans (onDev_ok hm)
      injection hrun with hb he
      exact ⟨d, by rw [hb], he⟩
  | error f d => cases h.symm.trans (onDev_error hm)

/-- `flush_pending`'s loop, read off the run without faults. -/
theorem flushWrites_run (q : List (ℕ × Bytes)) : ∀ {w e : Writer},
    flushWrites q w.unfailing = .ok () e →
    e = (w.flushedTo (w.vol.dev.puts (sectorWrites w.rescluster q)) q).unfailing ∧
    ((w.vol.dev.Clear (sectorWrites w.rescluster q).length ∧
        flushWrites q w = .ok () (w.flushedTo (w.vol.dev.puts (sectorWrites w.rescluster q)) q)) ∨
      ∃ n < (sectorWrites w.rescluster q).length, w.vol.dev.Clear n ∧
        w.vol.dev.faults (w.vol.dev.attempts + n) = true ∧
        flushWrites q w = .error (.err .io)
          (w.flushedTo (w.vol.dev.stopped ((sectorWrites w.rescluster q).take n))
            (q.take (n / w.rescluster)))) := by
  induction q with
  | nil =>
      intro w e h
      injection h with _ h
      exact ⟨h.symm, Or.inl ⟨fun i hi => absurd hi (Nat.not_lt_zero i), rfl⟩⟩
  | cons p q ih =>
      intro w e h
      obtain ⟨b, data⟩ := p
      rw [flushWrites, bind_of_ok (rfl : (get : WriterM Writer) _ = .ok _ _)] at h
      obtain ⟨_, w', hblock, hrest⟩ := of_bind_eq_ok h
      obtain ⟨d', hdev, hw'⟩ := onDev_inv hblock
      obtain ⟨hatt, hd'⟩ := Device.attempts_writeReservedBlocks hdev
      set bw := Device.reservedWrites w.rescluster b data with hbw
      have hlen : bw.length = w.rescluster := by simp [hbw, Device.reservedWrites]
      set v := w.flushedTo (w.vol.dev.puts bw) [(b, data)] with hv
      have hstep : invalidate b w' = v.unfailing := by rw [hw', hd']; rfl
      have hrest' : flushWrites q v.unfailing = .ok () e := by
        have hmod : (modify (invalidate b) : WriterM Unit) w' = .ok () (invalidate b w') := rfl
        rwa [bind_of_ok hmod, hstep] at hrest
      obtain ⟨he, hruns⟩ := ih hrest'
      have hall : sectorWrites w.rescluster ((b, data) :: q) =
          bw ++ sectorWrites w.rescluster q := rfl
      have hres : v.rescluster = w.rescluster := rfl
      have hput : v.vol.dev = w.vol.dev.puts bw := rfl
      obtain ⟨hfaults, hattempts, -, -⟩ := w.vol.dev.puts_fields bw
      rw [hres, hput] at hruns he
      have hrun : ∀ (d : Device), Device.writeReservedBlocks b data w.rescluster w.vol.dev =
          .ok () d → flushWrites ((b, data) :: q) w = flushWrites q (w.flushedTo d [(b, data)]) := by
        intro d hd
        rw [flushWrites, bind_of_ok (rfl : (get : WriterM Writer) _ = .ok _ _),
          bind_of_ok (Writer.onDev_ok hd)]
        rfl
      rw [hall]
      constructor
      · rw [he, Device.puts_append]
        rfl
      · rcases hatt with ⟨hclear, hdone⟩ | ⟨n, hn, hclear, hfault, hdone⟩
        · rw [hrun _ hdone]
          have hshift : ∀ i, w.vol.dev.attempts + bw.length + i =
              w.vol.dev.attempts + (bw.length + i) := fun i => by omega
          have hclear_add : ∀ {n}, (w.vol.dev.puts bw).Clear n →
              w.vol.dev.Clear (bw.length + n) := by
            intro n hn i hi
            by_cases hlt : i < bw.length
            · exact hclear i hlt
            · have hi' := hn (i - bw.length) (by omega)
              rwa [hfaults, hattempts, hshift, Nat.add_sub_cancel' (by omega)] at hi'
          rcases hruns with ⟨hclear', hrun'⟩ | ⟨n, hn, hclear', hfault, hrun'⟩
          · left
            rw [List.length_append, Device.puts_append]
            exact ⟨hclear_add hclear', hrun'⟩
          · -- a later block fails, so a block has at least one sector
            have hpos : 0 < w.rescluster := by
              by_contra hzero
              have hnil : w.rescluster = 0 := by omega
              have hlen0 : (sectorWrites w.rescluster q).length = 0 := by
                simp [sectorWrites, hnil, Device.reservedWrites]
              omega
            have htake : (bw ++ sectorWrites w.rescluster q).take (bw.length + n) =
                bw ++ (sectorWrites w.rescluster q).take n := List.take_length_add_append n
            have hdiv : (bw.length + n) / w.rescluster = n / w.rescluster + 1 := by
              rw [hlen, Nat.add_comm, Nat.add_div_right n hpos]
            refine Or.inr ⟨bw.length + n, by rw [List.length_append]; omega, hclear_add hclear',
              by rwa [hfaults, hattempts, hshift] at hfault, ?_⟩
            have hstop : w.vol.dev.stopped (bw ++ (sectorWrites w.rescluster q).take n) =
                (w.vol.dev.puts bw).stopped ((sectorWrites w.rescluster q).take n) :=
              Device.stopped_append _ _ _
            rw [htake, hdiv, hstop]
            exact hrun'
        · -- the first block fails, so nothing is dropped
          have hn : n < bw.length := hn
          have hzero : n / w.rescluster = 0 := Nat.div_eq_of_lt (by omega)
          refine Or.inr ⟨n, by rw [List.length_append]; omega, hclear, hfault, ?_⟩
          rw [List.take_append_of_le_length (by omega), hzero, List.take_zero, flushWrites,
            bind_of_ok (rfl : (get : WriterM Writer) _ = .ok _ _)]
          exact bind_of_error (onDev_error hdone)

/-! ## The rootblock cluster -/

/-- The part of `update_rootblock` after the flush. -/
def commitCluster : WriterM Unit := do
  let w ← get
  let rblkcluster := w.vol.rootblock.rblkcluster
  let cluster ← w.vol.dev.readBlocks w.firstreserved rblkcluster (rblkcluster * SECTOR_SIZE)
  let ds ← nextDatestamp
  let cluster ← putU32 cluster RB_OFF_DATESTAMP ds
  let cluster ← putU32 cluster RB_OFF_RESERVED_FREE w.vol.rootblock.reservedFree
  let cluster ← putU32 cluster RB_OFF_BLOCKSFREE w.vol.rootblock.blocksfree
  let bmOff := SECTOR_SIZE + 12
  let words := w.resBitmap.take ((cluster.length - bmOff) / 4)
  let cluster := splice cluster bmOff (words.flatMap fun l => enc32 l.toNat)
  onDev (Device.writeBlocks w.firstreserved rblkcluster cluster)
  onDev Device.flush

theorem updateRootblock_eq :
    updateRootblock = (do
      flushPending
      commitCluster) := rfl

/-- The words of the reserved bitmap for which the cluster has room. -/
def commitWords (w : Writer) : List (BitVec 32) :=
  w.resBitmap.take ((w.vol.rootblock.rblkcluster * SECTOR_SIZE - (SECTOR_SIZE + 12)) / 4)

/-- The cluster a commit with the datestamp `ds` makes of the cluster `c`. -/
def stamped (w : Writer) (ds : ℕ) (c : Bytes) : Bytes :=
  rootCluster c ds w.vol.rootblock.reservedFree w.vol.rootblock.blocksfree w.commitWords

/-- The sector writes of a commit with the datestamp `ds` on the device `d`. -/
def clusterWrites (w : Writer) (ds : ℕ) (d : Device) : List (ℕ × Sector) :=
  Device.numbered w.firstreserved (Device.sectorsOf w.vol.rootblock.rblkcluster
    (w.stamped ds (d.bytesAt w.firstreserved w.vol.rootblock.rblkcluster)))

/-- What a commit checks before it writes. -/
structure MayCommit (w : Writer) : Prop where
  writable : w.vol.dev.writable = true
  inside : w.firstreserved + w.vol.rootblock.rblkcluster ≤ w.vol.dev.total
  room : 0 < w.vol.rootblock.rblkcluster
  datestamp : w.datestamp + 1 < U32

theorem commitWords_eq {c : Bytes} (hc : c.length = w.vol.rootblock.rblkcluster * SECTOR_SIZE) :
    w.resBitmap.take ((c.length - (SECTOR_SIZE + 12)) / 4) = w.commitWords := by
  rw [hc]
  rfl

/-- The bytes of a cluster's reserved bitmap lie inside of it, if there are any. -/
theorem commitWords_fit {c : Bytes}
    (hc : c.length = w.vol.rootblock.rblkcluster * SECTOR_SIZE) :
    SECTOR_SIZE + 12 ≤ c.length ∨ w.commitWords.flatMap (fun l => enc32 l.toNat) = [] := by
  have hs : SECTOR_SIZE = 512 := rfl
  by_cases h : SECTOR_SIZE + 12 ≤ c.length
  · exact Or.inl h
  · right
    have hzero : (w.vol.rootblock.rblkcluster * SECTOR_SIZE - (SECTOR_SIZE + 12)) / 4 = 0 := by
      rw [← hc]
      omega
    simp [commitWords, hzero]

/-- The fields of the first sector, patched one after the other. -/
theorem putHead {c : Bytes} {ds rf bf : ℕ} (hc : 512 ≤ c.length) :
    putU32 c RB_OFF_DATESTAMP ds = .ok (splice c RB_OFF_DATESTAMP (enc32 ds)) ∧
    putU32 (splice c RB_OFF_DATESTAMP (enc32 ds)) RB_OFF_RESERVED_FREE rf =
      .ok (splice (splice c RB_OFF_DATESTAMP (enc32 ds)) RB_OFF_RESERVED_FREE (enc32 rf)) ∧
    putU32 (splice (splice c RB_OFF_DATESTAMP (enc32 ds)) RB_OFF_RESERVED_FREE (enc32 rf))
      RB_OFF_BLOCKSFREE bf = .ok (rootHead c ds rf bf) ∧
    (rootHead c ds rf bf).length = c.length := by
  have hl₁ : (splice c RB_OFF_DATESTAMP (enc32 ds)).length = c.length :=
    length_splice (by simp [RB_OFF_DATESTAMP]; omega)
  have hl₂ : (splice (splice c RB_OFF_DATESTAMP (enc32 ds)) RB_OFF_RESERVED_FREE
      (enc32 rf)).length = c.length :=
    (length_splice (by rw [hl₁]; simp [RB_OFF_RESERVED_FREE]; omega)).trans hl₁
  refine ⟨putU32_ok (by simp [RB_OFF_DATESTAMP]; omega),
    putU32_ok (by rw [hl₁]; simp [RB_OFF_RESERVED_FREE]; omega),
    putU32_ok (by rw [hl₂]; simp [RB_OFF_BLOCKSFREE]; omega), ?_⟩
  exact (length_splice (by rw [hl₂]; simp [RB_OFF_BLOCKSFREE]; omega)).trans hl₂

theorem length_stamped_eq {ds : ℕ} {c : Bytes}
    (hc : c.length = w.vol.rootblock.rblkcluster * SECTOR_SIZE)
    (hroom : 0 < w.vol.rootblock.rblkcluster) : (w.stamped ds c).length = c.length := by
  have hs : SECTOR_SIZE = 512 := rfl
  have hle : 512 ≤ c.length := by
    rw [hc, hs]
    omega
  obtain ⟨-, -, -, hhead⟩ := @putHead c ds w.vol.rootblock.reservedFree
    w.vol.rootblock.blocksfree hle
  unfold stamped rootCluster
  rcases commitWords_fit hc with hfit | hnil
  · refine (length_splice ?_).trans hhead
    have hwords : w.commitWords.length ≤
        (w.vol.rootblock.rblkcluster * SECTOR_SIZE - (SECTOR_SIZE + 12)) / 4 := by
      simp [commitWords]
    rw [hhead, length_words_bytes]
    rw [hs] at hfit hc hwords ⊢
    omega
  · rw [hnil, ← hhead]
    simp [splice]

theorem mayCommit_of_ok (h : commitCluster w = .ok () e) : w.MayCommit := by
  have hs : SECTOR_SIZE = 512 := rfl
  unfold commitCluster at h
  rw [bind_of_ok (rfl : (get : WriterM Writer) _ = .ok _ _)] at h
  obtain ⟨c, w₁, hread, h⟩ := of_bind_eq_ok h
  obtain ⟨hread, rfl⟩ := Format.of_lift_ok hread
  obtain ⟨hinside, hc⟩ : w₁.firstreserved + w₁.vol.rootblock.rblkcluster ≤ w₁.vol.dev.total ∧
      c.length = w₁.vol.rootblock.rblkcluster * SECTOR_SIZE := by
    unfold Device.readBlocks at hread
    rw [if_neg (lt_irrefl _)] at hread
    by_cases hlt : w₁.vol.dev.total < w₁.firstreserved + w₁.vol.rootblock.rblkcluster
    · rw [if_pos hlt] at hread
      cases hread
    · rw [if_neg hlt] at hread
      injection hread with hread
      refine ⟨by omega, ?_⟩
      rw [← hread, List.length_append, Device.length_bytesAt, hs]
      simp
  obtain ⟨ds, w₂, hds, h⟩ := of_bind_eq_ok h
  unfold nextDatestamp at hds
  rw [bind_of_ok (rfl : (get : WriterM Writer) _ = .ok _ _)] at hds
  obtain ⟨ds', w₃, hadd, hds⟩ := of_bind_eq_ok hds
  obtain ⟨hadd, rfl⟩ := Format.of_lift_ok hadd
  have hlt : w₃.datestamp + 1 < U32 := by
    unfold addU32 at hadd
    split at hadd
    · assumption
    · cases hadd
  cases hds
  obtain ⟨c₁, w₄, hput, h⟩ := of_bind_eq_ok h
  obtain ⟨hput, rfl⟩ := Format.of_lift_ok hput
  have hroom : 0 < w₃.vol.rootblock.rblkcluster := by
    by_contra hzero
    have hlen : c.length = 0 := by
      rw [hc]
      simp at hzero
      simp [hzero]
    unfold putU32 putBytes at hput
    rw [if_neg (by rw [hlen]; simp)] at hput
    cases hput
  obtain ⟨c₂, w₄, hput, h⟩ := of_bind_eq_ok h
  obtain ⟨hput, rfl⟩ := Format.of_lift_ok hput
  obtain ⟨c₃, w₄, hput, h⟩ := of_bind_eq_ok h
  obtain ⟨hput, rfl⟩ := Format.of_lift_ok hput
  obtain ⟨_, w₄, hwrite, -⟩ := of_bind_eq_ok h
  obtain ⟨d, hwrite, -⟩ := onDev_inv hwrite
  obtain ⟨hwritable, -, -⟩ := Device.passes_of_writeBlocks hwrite
  exact ⟨hwritable, hinside, hroom, hlt⟩

/-- A commit attempts the sectors of the stamped cluster. -/
theorem commitCluster_run (h : w.MayCommit) :
    (w.vol.dev.Clear (w.clusterWrites (w.datestamp + 1) w.vol.dev).length ∧
      commitCluster w = .ok () { w with
        datestamp := w.datestamp + 1
        vol.dev := w.vol.dev.puts (w.clusterWrites (w.datestamp + 1) w.vol.dev) }) ∨
    ∃ n < (w.clusterWrites (w.datestamp + 1) w.vol.dev).length, w.vol.dev.Clear n ∧
      w.vol.dev.faults (w.vol.dev.attempts + n) = true ∧
      commitCluster w = .error (.err .io) { w with
        datestamp := w.datestamp + 1
        vol.dev := w.vol.dev.stopped
          ((w.clusterWrites (w.datestamp + 1) w.vol.dev).take n) } := by
  have hs : SECTOR_SIZE = 512 := rfl
  have hroom := h.room
  set c := w.vol.dev.bytesAt w.firstreserved w.vol.rootblock.rblkcluster with hcdef
  have hc : c.length = w.vol.rootblock.rblkcluster * SECTOR_SIZE := by
    rw [hcdef, Device.length_bytesAt, hs]
  have hle : 512 ≤ c.length := by rw [hc, hs]; omega
  obtain ⟨hput₁, hput₂, hput₃, hhead⟩ := @putHead c (w.datestamp + 1)
    w.vol.rootblock.reservedFree w.vol.rootblock.blocksfree hle
  have hread : w.vol.dev.readBlocks w.firstreserved w.vol.rootblock.rblkcluster
      (w.vol.rootblock.rblkcluster * SECTOR_SIZE) = .ok c := Device.readBlocks_ok h.inside
  have hds : nextDatestamp w =
      .ok (w.datestamp + 1) { w with datestamp := w.datestamp + 1 } := by
    have hadd : addU32 w.datestamp 1 = .ok (w.datestamp + 1) := if_pos h.datestamp
    unfold nextDatestamp
    rw [bind_of_ok (rfl : (get : WriterM Writer) _ = .ok _ _), hadd]
    rfl
  have hlen : (w.stamped (w.datestamp + 1) c).length = c.length := length_stamped_eq hc hroom
  have hatt := @Device.attempts_writeBlocks _ w.firstreserved _ (w.stamped (w.datestamp + 1) c)
    h.writable h.inside (by rw [hlen, hc])
  have hwords := commitWords_eq (w := w) (hhead.trans hc)
  have hrun : commitCluster w = (do
      onDev (Device.writeBlocks w.firstreserved w.vol.rootblock.rblkcluster
        (w.stamped (w.datestamp + 1) c))
      onDev Device.flush : WriterM Unit) { w with datestamp := w.datestamp + 1 } := by
    unfold commitCluster
    rw [bind_of_ok (rfl : (get : WriterM Writer) _ = .ok _ _), hread]
    refine (bind_of_ok (rfl : (liftM (Except.ok c : Except Fault Bytes) : WriterM Bytes) w =
      .ok c w)).trans ?_
    rw [bind_of_ok hds, hput₁]
    refine (bind_of_ok (rfl : (liftM (Except.ok _ : Except Fault Bytes) : WriterM Bytes) _ =
      .ok _ _)).trans ?_
    rw [hput₂]
    refine (bind_of_ok (rfl : (liftM (Except.ok _ : Except Fault Bytes) : WriterM Bytes) _ =
      .ok _ _)).trans ?_
    rw [hput₃]
    refine (bind_of_ok (rfl : (liftM (Except.ok _ : Except Fault Bytes) : WriterM Bytes) _ =
      .ok _ _)).trans ?_
    rw [hwords]
    rfl
  rw [hrun]
  rcases hatt with ⟨hclear, hdone⟩ | ⟨n, hn, hclear, hfault, hdone⟩
  · exact Or.inl ⟨hclear, bind_of_ok (onDev_ok (w := { w with datestamp := w.datestamp + 1 }) hdone)⟩
  · exact Or.inr ⟨n, hn, hclear, hfault,
      bind_of_error (onDev_error (w := { w with datestamp := w.datestamp + 1 }) hdone)⟩

end Writer

end Pfs3
