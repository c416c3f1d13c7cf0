import Pfs3.Store.SimBlocks

/-!
# Simulation: anodes

Allocating anodes and anode blocks, writing anode slots, and the operations on chains.
-/

namespace Pfs3

open ByteList BlockCache Stop BitRun

namespace Rep

variable {g : Geometry} {w : Writer} {S : Store}

/-! ## Slots -/

theorem live_index_ne (h : Rep g w S) {s : ℕ} (hs : S.disk.index s ≠ 0) : S.live.index s ≠ 0 := by
  rw [h.index s hs]
  exact hs

/-- Queueing an anode block with one slot changed. -/
theorem writeSlot (h : Rep g w S) {seq off : ℕ} (hseq : S.live.index seq ≠ 0) (hoff : off < SLOTS)
    (ds : ℕ) (s : Slot) :
    Rep g (Writer.queued (S.live.index seq)
        (anodeImage ds seq (Function.update S.live.slot (seq * 65536 + off) s)) w)
      (Store.setSlot (seq * 65536 + off) s S) :=
  h.queued (Or.inl (h.liveWf.indexed seq hseq).2) (length_anodeImage _ _ _)
    (h.live.setSlot h.liveWf hseq hoff) (h.liveWf.setSlot _) h.index rfl

/-- Reading an anode block and writing one of its slots. -/
theorem putAnode_run (h : Rep g w S) {seq off : ℕ} (hseq : S.live.index seq ≠ 0) (hoff : off < SLOTS)
    (clustersize blocknr next : ℕ) :
    ∃ data data', Writer.readReservedRaw (S.live.index seq) w = .ok data w ∧
      Writer.putAnode data (ANODE_BLOCK_HEADER_SIZE + off * ANODE_SIZE) clustersize blocknr next
        w.datestamp = .ok data' ∧
      Rep g (Writer.queued (S.live.index seq) data' w)
        (Store.setSlot (seq * 65536 + off) (.ofNat clustersize blocknr next) S) := by
  obtain ⟨ds, himage⟩ := h.live.anodes seq hseq
  refine ⟨anodeImage ds seq S.live.slot, _, ?_, putAnode_anodeImage hoff, h.writeSlot hseq hoff _ _⟩
  rw [h.readReservedRaw (h.liveWf.indexed seq hseq).2.isReserved, himage]

theorem writeAnodeFields (h : Rep g w S) (nr clustersize blocknr next : ℕ) :
    Sim (Rep g) Eq (Writer.writeAnodeFields nr clustersize blocknr next)
      (Store.writeAnodeFields nr clustersize blocknr next) w S := by
  refine sim_get ?_
  rw [if_neg (by rw [h.vol.rb.split]; simp)]
  simp only [h.vol.rb.split, if_true]
  by_cases hstuck : S.disk.index (nr / 65536) = 0 ∨ SLOTS ≤ nr % 65536
  · rw [if_pos hstuck]
    exact sim_stuck
  · rw [if_neg hstuck]
    have hdisk : S.disk.index (nr / 65536) ≠ 0 := fun h => hstuck (Or.inl h)
    have hoff : nr % 65536 < SLOTS := Nat.lt_of_not_le fun h => hstuck (Or.inr h)
    obtain ⟨v, hv, hnr⟩ := h.getAnodeBlockNr (nr / 65536)
    have hrep := h.sameVol hv
    have hnr' : nr / 65536 * 65536 + nr % 65536 = nr := by omega
    obtain ⟨data, data', hread, hput, hw⟩ := hrep.putAnode_run (hrep.live_index_ne hdisk) hoff
      clustersize blocknr next
    rw [h.index _ hdisk, hnr'] at *
    refine sim_left hnr (sim_left hread (sim_lift_ok hput ?_))
    exact sim_of_ok rfl rfl rfl hw

theorem clearSingleAnode (h : Rep g w S) (nr : ℕ) :
    Sim (Rep g) Eq (Writer.clearSingleAnode nr) (Store.clearSingleAnode nr) w S :=
  h.writeAnodeFields nr 0 0 0

/-! ## Anode blocks -/

/-- Entering a block into the index. -/
theorem putIndexEntry (h : Rep g w S) {seq b ds' : ℕ} (hseq : seq < 253)
    (hb : S.geo.IsDynamic b) (hfree : ∀ s, S.live.index s ≠ b) (hdir : S.live.dir b = none)
    (hread : w.overlay b = anodeImage ds' seq fun _ => .empty) (hdisk : S.disk.index seq = 0) :
    ∃ w', Writer.putIndexEntry S.geo.anidx seq b w = .ok () w' ∧
      Rep g w' (Store.register seq b S) := by
  obtain ⟨ds, himage⟩ := h.live.index
  have hread' := h.readReservedRaw S.geo.anidx_isReserved
  rw [himage] at hread'
  have hput := @putIndex_indexImage ds w.datestamp seq b S.live.index hseq
  have hindex : ∀ s, S.disk.index s ≠ 0 →
      Function.update S.live.index seq b s = S.disk.index s := by
    intro s hs
    have hne : s ≠ seq := fun heq => hs (heq ▸ hdisk)
    rw [Function.update_of_ne hne]
    exact h.index s hs
  refine ⟨Writer.queued S.geo.anidx
    (indexImage w.datestamp (Function.update S.live.index seq b)) w, ?_, ?_⟩
  · unfold Writer.putIndexEntry
    rw [bind_of_ok hread']
    cases h₁ : putU32 (indexImage ds S.live.index) (INDEX_BLOCK_HEADER_SIZE + seq * 4) b with
    | error f =>
        rw [h₁] at hput
        cases hput
    | ok data =>
        rw [h₁, ok_bind] at hput
        change ((liftM (putU32 data 4 w.datestamp) : WriterM Bytes) >>= fun idata =>
          Writer.writeReserved S.geo.anidx idata) w = _
        rw [hput]
        rfl
  · exact h.queued (Or.inr (Or.inl rfl)) (length_indexImage _ _)
      (h.live.register h.liveWf hb hread)
      (h.liveWf.register hseq hb hfree hdir _) hindex rfl

/-- A cache without one more entry. -/
theorem invalidate (h : Rep g w S) (b : ℕ) : Rep g (Writer.invalidate b w) S :=
  { h with vol := { h.vol with cache := h.vol.cache.invalidate b } }

theorem allocAnodeBlock (h : Rep g w S) (seq : ℕ) :
    Sim (Rep g) Eq (Writer.allocAnodeBlock seq) (Store.allocAnodeBlock seq) w S := by
  refine h.allocReservedBlock.bind ?_
  rintro newBlk _ w S rfl h
  refine sim_get_left ?_
  have hfresh := fun ds => fresh_anodeImage ds seq
  rw [h.resblocksize]
  obtain ⟨data, h₁, -⟩ := of_bind_ok (hfresh 0)
  refine sim_lift_ok h₁ ?_
  refine h.nextDatestamp.bind ?_
  rintro ds _ w' S rfl h'
  refine sim_get_right ?_
  have hfresh := hfresh ds
  rw [h₁, ok_bind] at hfresh
  obtain ⟨data', h₂, hfresh⟩ := of_bind_ok hfresh
  refine sim_lift_ok h₂ (sim_lift_ok hfresh ?_)
  by_cases husable : S.Usable newBlk ∧ S.disk.index seq = 0
  swap
  · rw [if_neg husable]
    exact sim_stuck
  rw [if_pos husable]
  obtain ⟨⟨hdyn, hfree⟩, hdisk⟩ := husable
  have hfree' : ∀ s, S.live.index s ≠ newBlk := by
    intro s
    by_cases hs : s < 253
    · exact hfree s hs
    · intro heq
      have hne : S.live.index s ≠ 0 := by rw [heq]; exact hdyn.pos
      exact hs (h'.liveWf.indexed s hne).1
  -- the new anode block is queued
  have hq := h'.queued (b := newBlk) (d := anodeImage ds seq fun _ => .empty) (Or.inl hdyn)
    (length_anodeImage _ _ _) (h'.live.clearDir hdyn hfree') (h'.liveWf.clearDir newBlk) h'.index rfl
  have hover := Writer.overlay_queued newBlk (anodeImage ds seq fun _ => .empty) w'
  refine sim_left (u := Writer.queued newBlk (anodeImage ds seq fun _ => .empty) w') rfl ?_
  refine sim_set_right (sim_get_left ?_)
  generalize Writer.queued newBlk (anodeImage ds seq fun _ => .empty) w' = w'' at hq hover ⊢
  simp only [hq.indexPerBlock, hq.vol.rb.large, hq.vol.rb.indexblocks]
  rw [if_neg (by omega)]
  simp only [Bool.false_eq_true, if_false]
  by_cases hseq : 253 ≤ seq
  · have hne : ¬ seq / 253 = 0 := by omega
    rw [if_pos hseq, if_pos (if_neg hne)]
    exact sim_of_raise rfl rfl hq
  · have hzero : seq / 253 = 0 := by omega
    have hmod : seq % 253 = seq := Nat.mod_eq_of_lt (by omega)
    have hgeo : S.geo.anidx ≠ 0 := by simp only [Geometry.anidx, Geometry.blockAt]; omega
    have hread : w''.overlay newBlk = anodeImage ds seq fun _ => .empty := by
      rw [hover, Function.update_self]
    obtain ⟨w₃, hrun, hrep⟩ := hq.putIndexEntry (Nat.lt_of_not_le hseq) hdyn hfree'
      (Function.update_self _ _ _) hread hdisk
    rw [if_neg hseq, if_pos hzero, if_neg hgeo, hmod]
    refine sim_left hrun (sim_left (u := Writer.invalidate newBlk w₃) rfl ?_)
    exact sim_of_ok rfl rfl rfl (hrep.invalidate newBlk)

/-! ## Allocating anodes -/

theorem anodeNr_eq (h : Rep g w S) {seq off : ℕ} (hoff : off < SLOTS) :
    w.anodeNr seq off = seq * 65536 + off := by
  have hlt : off < 2 ^ 16 := by
    simp only [SLOTS] at hoff
    omega
  have hor := Nat.two_pow_add_eq_or_of_lt hlt seq
  rw [Writer.anodeNr, h.vol.rb.split, if_pos rfl, Nat.mul_comm seq 65536]
  exact hor.symm

/-- The search for a free slot, from `off` on. -/
theorem findFreeSlot (h : Rep g w S) (seq ds : ℕ) (n : ℕ) : ∀ off, off + n = SLOTS →
    Writer.findFreeSlot w seq (anodeImage ds seq S.live.slot) n off =
      .ok ((List.range' off n).find? fun o =>
        ANODE_USERFIRST ≤ seq * 65536 + o ∧ (S.live.slot (seq * 65536 + o)).IsFree) := by
  induction n with
  | zero => intro off _; rfl
  | succ n ih =>
      intro off hoff
      have hlt : off < SLOTS := by omega
      have hlt' : off < 84 := hlt
      have hlen := length_anodeImage ds seq S.live.slot
      have hbase : ANODE_BLOCK_HEADER_SIZE + off * ANODE_SIZE = 16 + off * 12 := rfl
      rw [Writer.findFreeSlot, h.anodeNr_eq hlt, List.range'_succ, List.find?_cons,
        ih (off + 1) (by omega)]
      by_cases hlow : seq * 65536 + off < ANODE_USERFIRST
      · have hno : ¬ (ANODE_USERFIRST ≤ seq * 65536 + off ∧
            (S.live.slot (seq * 65536 + off)).IsFree) := fun hh => by omega
        rw [if_pos hlow, decide_eq_false hno]
      · rw [if_neg hlow]
        simp only [hbase]
        rw [readU32_ok (by omega), ok_bind, readU32_ok (by omega), ok_bind,
          clustersize_anodeImage hlt, blocknr_anodeImage hlt]
        have hfree : ((S.live.slot (seq * 65536 + off)).clustersize.toNat = 0 ∧
            (S.live.slot (seq * 65536 + off)).blocknr.toNat = 0) ↔
            (S.live.slot (seq * 65536 + off)).IsFree := by
          unfold Slot.IsFree
          rw [← UInt32.toNat_inj, ← UInt32.toNat_inj]
          rfl
        by_cases hf : (S.live.slot (seq * 65536 + off)).IsFree
        · have hyes : ANODE_USERFIRST ≤ seq * 65536 + off ∧
              (S.live.slot (seq * 65536 + off)).IsFree := ⟨by omega, hf⟩
          rw [if_pos (hfree.mpr hf), decide_eq_true hyes]
          rfl
        · have hno : ¬ (ANODE_USERFIRST ≤ seq * 65536 + off ∧
              (S.live.slot (seq * 65536 + off)).IsFree) := fun hh => hf hh.2
          rw [if_neg (fun hh => hf (hfree.mp hh)), decide_eq_false hno]

theorem allocAnodeLoop (clustersize blocknr next : ℕ) (seqs : List ℕ) :
    ∀ {w : Writer} {S : Store}, Rep g w S →
    Sim (Rep g) Eq (Writer.allocAnodeLoop clustersize blocknr next seqs)
      (Store.allocAnodeLoop clustersize blocknr next seqs) w S := by
  induction seqs with
  | nil => intro w S h; exact sim_throw h
  | cons seq rest ih =>
      intro w S h
      obtain ⟨v, hv, hnr⟩ := h.getAnodeBlockNr seq
      have h := h.sameVol hv
      refine sim_left hnr (sim_get_right ?_)
      generalize ({ w with vol := v } : Writer) = w at h
      by_cases hzero : S.disk.index seq = 0
      · -- a new anode block
        rw [if_pos hzero, if_pos hzero]
        refine (h.allocAnodeBlock seq).bind ?_
        rintro newBlk _ w S rfl h
        refine sim_get_right ?_
        by_cases hstuck : newBlk = 0 ∨ S.live.index seq ≠ newBlk
        · rw [if_pos hstuck]
          exact sim_stuck
        rw [if_neg hstuck]
        have hindex : S.live.index seq = newBlk := by
          by_contra hne
          exact hstuck (Or.inr hne)
        have hne : S.live.index seq ≠ 0 := by
          rw [hindex]
          exact fun h0 => hstuck (Or.inl h0)
        have hoff : ANODE_USERFIRST < SLOTS := by decide
        obtain ⟨data, data', hread, hput, hw⟩ := h.putAnode_run hne hoff clustersize blocknr next
        rw [hindex] at hread hw
        refine sim_left hread (sim_get_left (sim_lift_ok hput ?_))
        refine sim_left (u := Writer.queued newBlk data' w) rfl (sim_set_right ?_)
        exact sim_pure (h.anodeNr_eq hoff) hw
      · rw [if_neg hzero, if_neg hzero]
        have hne := h.live_index_ne hzero
        have hindex := h.index seq hzero
        obtain ⟨ds, himage⟩ := h.live.anodes seq hne
        have hread := h.readReservedRaw (h.liveWf.indexed seq hne).2.isReserved
        rw [himage, hindex] at hread
        refine sim_left hread ?_
        have hid : readU16 (anodeImage ds seq S.live.slot) 0 = .ok ABLKID := by
          rw [readU16_ok (by simp), be16_anodeImage]
        refine sim_lift_ok hid ?_
        rw [if_neg (by simp)]
        have hfind := h.findFreeSlot seq ds SLOTS 0 (by omega)
        rw [← List.range_eq_range'] at hfind
        refine sim_get_left ?_
        rw [show w.anodesPerBlock = SLOTS from h.anodesPerBlock]
        refine sim_lift_ok hfind ?_
        unfold Store.freeSlot
        cases hslot : (List.range SLOTS).find? fun o =>
            ANODE_USERFIRST ≤ seq * 65536 + o ∧ (S.live.slot (seq * 65536 + o)).IsFree with
        | none => exact ih h
        | some off =>
            have hoff : off < SLOTS := List.mem_range.mp (List.mem_of_find?_eq_some hslot)
            simp only []
            refine sim_lift_ok (putAnode_anodeImage hoff) ?_
            have hw := h.writeSlot hne hoff w.datestamp (.ofNat clustersize blocknr next)
            rw [hindex] at hw
            refine sim_left (u := Writer.queued (S.disk.index seq) _ w) rfl (sim_set_right ?_)
            exact sim_pure (h.anodeNr_eq hoff) hw

theorem allocAnode (h : Rep g w S) (clustersize blocknr next : ℕ) :
    Sim (Rep g) Eq (Writer.allocAnode clustersize blocknr next)
      (Store.allocAnode clustersize blocknr next) w S :=
  allocAnodeLoop clustersize blocknr next (List.range 256) h

/-! ## Chains -/

theorem createAnodes (clusters : List (ℕ × ℕ)) : ∀ {w : Writer} {S : Store}, Rep g w S →
    Sim (Rep g) Eq (Writer.createAnodes clusters) (Store.createAnodes clusters) w S := by
  induction clusters with
  | nil => intro w S h; exact sim_pure rfl h
  | cons c rest ih =>
      intro w S h
      obtain ⟨start, count⟩ := c
      refine (ih h).bind ?_
      rintro next _ w S rfl h
      exact h.allocAnode count start next

theorem createAnodeChain (h : Rep g w S) (blocks : List ℕ) :
    Sim (Rep g) Eq (Writer.createAnodeChain blocks) (Store.createAnodeChain blocks) w S :=
  createAnodes _ h

theorem sim_unit {m : WriterM Unit} {m' : StoreM Unit}
    (h : Sim (Rep g) (fun _ _ => True) m m' w S) : Sim (Rep g) Eq m m' w S :=
  h.mono fun _ _ _ => rfl

theorem freeBlocksFrom (h : Rep g w S) (base : ℕ) (l : List ℕ) :
    Sim (Rep g) Eq
      (l.forM fun i => (do
        let blk ← addU32 base i
        Writer.freeDataBlock blk : WriterM Unit))
      (l.forM fun i => (do
        let blk ← addU32 base i
        Store.freeDataBlock blk : StoreM Unit)) w S := by
  refine sim_unit (sim_forM l (fun i _ w S h => ?_) h)
  exact (sim_addU32 h fun _ => h.freeDataBlock (base + i)).mono fun _ _ _ => trivial

theorem freeExtent (h : Rep g w S) (an : Anode) :
    Sim (Rep g) Eq (Writer.freeExtent an) (Store.freeExtent an) w S :=
  h.freeBlocksFrom an.blocknr _

theorem freeDataBlocks (h : Rep g w S) (nr : ℕ) :
    Sim (Rep g) Eq (Writer.freeDataBlocks nr) (Store.freeDataBlocks nr) w S := by
  refine (h.getChain nr).bind ?_
  rintro chain _ w S rfl h
  exact sim_unit (sim_forM chain (fun an _ w S h => (h.freeExtent an).mono fun _ _ _ => trivial) h)

theorem clearAnodeChain (h : Rep g w S) (nr : ℕ) :
    Sim (Rep g) Eq (Writer.clearAnodeChain nr) (Store.clearAnodeChain nr) w S := by
  refine (h.getChain nr).bind ?_
  rintro chain _ w S rfl h
  exact sim_unit (sim_forM chain
    (fun an _ w S h => (h.clearSingleAnode an.nr).mono fun _ _ _ => trivial) h)

theorem freeAnodeChainReserved (h : Rep g w S) (nr : ℕ) :
    Sim (Rep g) Eq (Writer.freeAnodeChainReserved nr) (Store.freeAnodeChainReserved nr) w S := by
  refine (h.getChain nr).bind ?_
  rintro chain _ w S rfl h
  refine sim_unit (sim_forM chain (fun an _ w S h => ?_) h)
  refine sim_forM _ (fun i _ w S h => ?_) h
  exact (sim_addU32 h fun _ => h.freeReservedBlock (an.blocknr + i)).mono fun _ _ _ => trivial

theorem freeAndClearAnodes (h : Rep g w S) (anodes : List Anode) :
    Sim (Rep g) Eq (Writer.freeAndClearAnodes anodes) (Store.freeAndClearAnodes anodes) w S := by
  refine sim_unit (sim_forM anodes (fun an _ w S h => ?_) h)
  refine (h.freeExtent an).bind fun _ _ w S _ h => ?_
  exact (h.clearSingleAnode an.nr).mono fun _ _ _ => trivial

theorem truncateLoop (anodes : List Anode) : ∀ (remaining : ℕ) {w : Writer} {S : Store},
    Rep g w S → Sim (Rep g) Eq (Writer.truncateLoop remaining anodes)
      (Store.truncateLoop remaining anodes) w S := by
  induction anodes with
  | nil => intro remaining w S h; exact sim_pure rfl h
  | cons an rest ih =>
      intro remaining w S h
      unfold Writer.truncateLoop Store.truncateLoop
      split
      · exact h.freeAndClearAnodes _
      · split
        · refine (h.freeBlocksFrom an.blocknr _).bind fun _ _ w S _ h => ?_
          refine (h.writeAnodeFields an.nr remaining an.blocknr ANODE_EOF).bind
            fun _ _ w S _ h => ?_
          exact h.freeAndClearAnodes rest
        · split
          · refine (h.writeAnodeFields an.nr an.clustersize an.blocknr ANODE_EOF).bind
              fun _ _ w S _ h => ?_
            exact h.freeAndClearAnodes rest
          · exact ih _ h

theorem truncateAnodeChain (h : Rep g w S) (head keepBlocks : ℕ) :
    Sim (Rep g) Eq (Writer.truncateAnodeChain head keepBlocks)
      (Store.truncateAnodeChain head keepBlocks) w S := by
  refine (h.getChain head).bind ?_
  rintro chain _ w S rfl h
  exact truncateLoop chain keepBlocks h

theorem appendToAnodeChain (h : Rep g w S) (head newHead : ℕ) :
    Sim (Rep g) Eq (Writer.appendToAnodeChain head newHead)
      (Store.appendToAnodeChain head newHead) w S := by
  refine (h.getChain head).bind ?_
  rintro chain _ w S rfl h
  cases chain.getLast? with
  | none => exact sim_throw h
  | some tail => exact h.writeAnodeFields tail.nr tail.clustersize tail.blocknr newHead

end Rep

end Pfs3
