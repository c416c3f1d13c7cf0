import Pfs3.Store.CacheRuns
import Pfs3.Store.Image
import Pfs3.Model.Format
import Pfs3.Model.Api

/-!
# Writes stay on the device

Every write of the formatter and of the writer goes through `write_blocks`, which refuses a range
that ends behind the device.  So no call changes a sector behind the device's last one, however it
ends.
-/

namespace Pfs3

open ByteList Stop

theorem frame_iff_leaves {α σ : Type} {R : σ → σ → Prop} {m : EStateM Fault σ α} :
    Frame R m ↔ ∀ s, R s (leaves (m s)) := by
  refine forall_congr' fun s => ?_
  cases m s <;> rfl

/-! ## The device -/

namespace Device

/-- The device `d'` has the size of `d`, and its sectors behind the end. -/
structure Within (d d' : Device) : Prop where
  total : d'.total = d.total
  behind : ∀ i, d.total ≤ i → d'.sectors i = d.sectors i

theorem Within.refl (d : Device) : Within d d := ⟨rfl, fun _ _ => rfl⟩

theorem Within.of_eq {d d' : Device} (h : d' = d) : Within d d' := h ▸ .refl d

theorem Within.trans (d₁ d₂ d₃ : Device) (h : Within d₁ d₂) (h' : Within d₂ d₃) : Within d₁ d₃ :=
  ⟨h'.total.trans h.total, fun i hi =>
    (h'.behind i (by rw [h.total]; exact hi)).trans (h.behind i hi)⟩

theorem touches_writeSectors {P : ℕ → Prop} (sectors : List Sector) : ∀ {b : ℕ},
    (∀ i, b ≤ i → i < b + sectors.length → P i) → Touches P (writeSectors b sectors) := by
  induction sectors with
  | nil => exact fun _ => touches_pure _
  | cons s rest ih =>
      intro b h
      rw [List.length_cons] at h
      exact (touches_writeSector s (h b (by omega) (by omega))).bind fun _ =>
        ih fun i hi hlt => h i (by omega) (by omega)

theorem touches_writeBlocks {P : ℕ → Prop} {b n : ℕ} (data : Bytes)
    (h : ∀ i, b ≤ i → i < b + n → P i) : Touches P (writeBlocks b n data) := by
  refine touches_get.bind fun d => ?_
  split
  · exact touches_throw _
  · split
    · exact touches_throw _
    · split
      · exact touches_throw _
      · exact touches_writeSectors _ (by rwa [List.length_map, List.length_range])

theorem Within.of_touches {α : Type} {m : EStateM Fault Device α} {P : ℕ → Prop} (h : Touches P m)
    {d : Device} (hP : ∀ i, P i → i < d.total) : Within d (leaves (m d)) :=
  ⟨(h d).1, fun i hi => (h d).2 i fun hp => absurd (hP i hp) (not_lt.2 hi)⟩

/-- A write of several blocks is refused unless all of them lie on the device. -/
theorem frame_writeBlocks (b n : ℕ) (data : Bytes) : Frame Within (writeBlocks b n data) := by
  refine frame_iff_leaves.2 fun d => ?_
  by_cases hlt : d.total < b + n
  · unfold writeBlocks
    rw [bind_of_ok (rfl : (get : EStateM Fault Device Device) d = .ok d d)]
    split
    · exact .refl d
    · exact .refl d
  · refine .of_touches (touches_writeBlocks (P := fun i => b ≤ i ∧ i < b + n) data
      fun i hi hend => ⟨hi, hend⟩) ?_
    rintro i ⟨-, hi⟩
    omega

theorem frame_writeBlock (b : ℕ) (data : Bytes) : Frame Within (writeBlock b data) :=
  frame_writeBlocks b 1 data

theorem frame_writeReservedBlocks (b : ℕ) (data : Bytes) (rescluster : ℕ) :
    Frame Within (writeReservedBlocks b data rescluster) :=
  frame_forM Within.refl Within.trans _ fun _ _ => frame_writeBlock _ _

end Device

/-! ## Readers -/

/-- The computation does not change the device. -/
def Volume.KeepsDev {α : Type} (m : VolumeM α) : Prop :=
  @Frame _ _ _ (fun v v' : Volume => v'.dev = v.dev) m

namespace Volume

variable {α β : Type}

theorem keepsDev_pure (a : α) : KeepsDev (pure a : VolumeM α) := fun _ => rfl

theorem keepsDev_throw (f : Fault) : KeepsDev (throw f : VolumeM α) := fun _ => rfl

theorem keepsDev_get : KeepsDev (get : VolumeM Volume) := fun _ => rfl

theorem KeepsDev.bind {m : VolumeM α} {k : α → VolumeM β} (h : KeepsDev m)
    (hk : ∀ a, KeepsDev (k a)) : KeepsDev (m >>= k) :=
  Frame.bind (fun _ _ _ h₁ h₂ => h₂.trans h₁) h hk

theorem keepsDev_lift (e : Except Fault α) : KeepsDev (liftM e : VolumeM α) := by
  intro v
  cases e <;> exact rfl

theorem keepsDev_onCache (m : Device → CacheM α) : KeepsDev (onCache m) := by
  intro v
  unfold onCache zoom
  cases m v.dev v.cache <;> exact rfl

theorem keepsDev_getAnodeChain (nr : ℕ) : KeepsDev (getAnodeChain nr) :=
  keepsDev_get.bind fun _ => keepsDev_onCache _

theorem keepsDev_listDirByAnode (nr : ℕ) : KeepsDev (listDirByAnode nr) :=
  keepsDev_get.bind fun _ => keepsDev_onCache _

theorem keepsDev_lookup (path : Name) : KeepsDev (lookup path) :=
  keepsDev_get.bind fun _ => keepsDev_onCache _

theorem keepsDev_readFileData (nr size : ℕ) : KeepsDev (readFileData nr size) :=
  (keepsDev_getAnodeChain nr).bind fun _ => keepsDev_get.bind fun _ => keepsDev_lift _

end Volume

/-! ## The writer -/

namespace Writer

variable {α β : Type}

/-- However it ends, the computation leaves the device alone. -/
def Quiet (m : WriterM α) : Prop := @Frame _ _ _ (fun w w' : Writer => w'.vol.dev = w.vol.dev) m

theorem quiet_pure (a : α) : Quiet (pure a : WriterM α) := fun _ => rfl

theorem quiet_throw (f : Fault) : Quiet (throw f : WriterM α) := fun _ => rfl

theorem quiet_get : Quiet (get : WriterM Writer) := fun _ => rfl

theorem Quiet.bind {m : WriterM α} {k : α → WriterM β} (h : Quiet m) (hk : ∀ a, Quiet (k a)) :
    Quiet (m >>= k) :=
  Frame.bind (fun _ _ _ h₁ h₂ => h₂.trans h₁) h hk

theorem Quiet.get {k : Writer → WriterM β} (hk : ∀ a, Quiet (k a)) :
    Quiet (MonadState.get >>= k) := quiet_get.bind hk

theorem quiet_lift (e : Except Fault α) : Quiet (liftM e : WriterM α) := by
  intro w
  cases e <;> exact rfl

/-- A value that may be missing. -/
theorem Quiet.lift {e : Except Fault α} {k : α → WriterM β} (hk : ∀ a, Quiet (k a)) :
    Quiet (liftM e >>= k) := (quiet_lift e).bind hk

theorem quiet_modify {f : Writer → Writer} (h : ∀ w, (f w).vol.dev = w.vol.dev) :
    Quiet (modify f : WriterM PUnit) := h

theorem quiet_forM {ι : Type} {f : ι → WriterM PUnit} (h : ∀ i, Quiet (f i)) (l : List ι) :
    Quiet (l.forM f) :=
  frame_forM (R := fun w w' : Writer => w'.vol.dev = w.vol.dev) (fun _ => rfl)
    (fun _ _ _ h₁ h₂ => h₂.trans h₁) l fun i _ => h i

theorem Quiet.tryOk {m : WriterM α} (h : Quiet m) : Quiet (tryOk m) := by
  intro w
  have hm := h w
  unfold Pfs3.tryOk
  rcases hrun : m w with ⟨a, w'⟩ | ⟨f, w'⟩ <;> rw [hrun] at hm
  · exact hm
  · cases f <;> exact hm

theorem quiet_onVol {m : VolumeM α} (h : Volume.KeepsDev m) : Quiet (onVol m) := by
  intro w
  have hm := h w.vol
  unfold onVol zoom
  rcases hrun : m w.vol with ⟨a, v⟩ | ⟨f, v⟩ <;> rw [hrun] at hm
  · exact hm
  · exact hm

/-- The device has its size, and its sectors behind the end. -/
def DevWithin (w w' : Writer) : Prop := w.vol.dev.Within w'.vol.dev

theorem DevWithin.refl (w : Writer) : DevWithin w w := Device.Within.refl _

theorem DevWithin.trans (w₁ w₂ w₃ : Writer) (h : DevWithin w₁ w₂) (h' : DevWithin w₂ w₃) :
    DevWithin w₁ w₃ := Device.Within.trans _ _ _ h h'

/-- However it ends, the computation changes no sector behind the end of the device. -/
def Confined (m : WriterM α) : Prop := Frame DevWithin m

theorem Quiet.confined {m : WriterM α} (h : Quiet m) : Confined m := by
  intro w
  have hm := h w
  rcases hrun : m w with ⟨a, w'⟩ | ⟨f, w'⟩ <;> rw [hrun] at hm <;> exact .of_eq hm

theorem Confined.bind {m : WriterM α} {k : α → WriterM β} (h : Confined m)
    (hk : ∀ a, Confined (k a)) : Confined (m >>= k) :=
  Frame.bind DevWithin.trans h hk

theorem Confined.get {k : Writer → WriterM β} (hk : ∀ a, Confined (k a)) :
    Confined (MonadState.get >>= k) := quiet_get.confined.bind hk

theorem Confined.lift {e : Except Fault α} {k : α → WriterM β} (hk : ∀ a, Confined (k a)) :
    Confined (liftM e >>= k) := (quiet_lift e).confined.bind hk

theorem confined_onDev {m : EStateM Fault Device α} (h : Frame Device.Within m) :
    Confined (onDev m) := by
  intro w
  have hm := h w.vol.dev
  unfold onDev onVol zoom
  rcases hrun : m w.vol.dev with ⟨a, d⟩ | ⟨f, d⟩ <;> rw [hrun] at hm
  · exact hm
  · exact hm

theorem quiet_flush : Quiet (onDev Device.flush) := fun _ => rfl

/-! ### Counters and reserved blocks -/

theorem quiet_currentAmigaDatestamp : Quiet currentAmigaDatestamp :=
  fun _ => rfl

theorem quiet_nextDatestamp : Quiet nextDatestamp := by
  intro w
  unfold nextDatestamp
  rw [bind_of_ok (rfl : (get : WriterM Writer) w = .ok w w)]
  cases addU32 w.datestamp 1 <;> exact rfl

theorem quiet_setBlocksfree (n : ℕ) : Quiet (setBlocksfree n) := quiet_modify fun _ => rfl

theorem quiet_setReservedFree (n : ℕ) : Quiet (setReservedFree n) :=
  quiet_modify fun _ => rfl

theorem quiet_readReservedRaw (blk : ℕ) : Quiet (readReservedRaw blk) := by
  refine .get fun w => ?_
  split
  · exact quiet_pure _
  · exact quiet_lift _

theorem quiet_writeReserved (blk : ℕ) (data : Bytes) : Quiet (writeReserved blk data) :=
  quiet_modify fun _ => rfl

theorem quiet_invalidate (blk : ℕ) : Quiet (modify (invalidate blk) : WriterM PUnit) :=
  quiet_modify fun _ => rfl

theorem quiet_getAnodeBlockNr (seqnr : ℕ) : Quiet (getAnodeBlockNr seqnr) :=
  .get fun _ => quiet_onVol (Volume.keepsDev_onCache _)

theorem quiet_getChain (nr : ℕ) : Quiet (getChain nr) :=
  quiet_onVol (Volume.keepsDev_getAnodeChain nr)

theorem quiet_descend (parts : List Name) : ∀ parent, Quiet (descend parent parts) := by
  induction parts with
  | nil => exact fun _ => quiet_pure _
  | cons part rest ih =>
      intro parent
      refine (quiet_onVol (Volume.keepsDev_listDirByAnode parent)).bind fun entries => ?_
      split
      · exact ih _
      · exact quiet_throw _

theorem quiet_splitPath (path : Name) : Quiet (splitPath path) := by
  unfold splitPath
  dsimp only
  split
  · exact quiet_throw _
  · exact (quiet_descend _ _).bind fun _ => quiet_pure _

theorem quiet_allocReservedBlock : Quiet allocReservedBlock := by
  intro w
  unfold allocReservedBlock
  rw [bind_of_ok (rfl : (get : WriterM Writer) w = .ok w w)]
  cases firstFree 0 w.resBitmap with
  | none => exact rfl
  | some found =>
      obtain ⟨li, bit⟩ := found
      have hrest : Quiet (do
          let free ← subU32 w.vol.rootblock.reservedFree 1
          setReservedFree free
          addU32 w.firstreserved ((li * 32 + bit) * w.rescluster) : WriterM ℕ) :=
        .lift fun free => (quiet_setReservedFree free).bind fun _ => quiet_lift _
      exact hrest { w with resBitmap := w.resBitmap.modify li fun l => l &&& ~~~ bitMask bit }

theorem quiet_freeReservedBlock (blk : ℕ) : Quiet (freeReservedBlock blk) := by
  intro w
  unfold freeReservedBlock
  rw [bind_of_ok (rfl : (get : WriterM Writer) w = .ok w w)]
  cases subU32 blk w.firstreserved with
  | error f => exact rfl
  | ok rel =>
      have hlift : (liftM (Except.ok rel : Except Fault ℕ) : WriterM ℕ) w = .ok rel w := rfl
      rw [bind_of_ok hlift]
      by_cases hzero : w.rescluster = 0
      · rw [if_pos hzero]
        exact rfl
      · rw [if_neg hzero]
        by_cases hlt : rel / w.rescluster / 32 < w.resBitmap.length
        · have hrest : Quiet (do
              let free ← addU32 w.vol.rootblock.reservedFree 1
              setReservedFree free : WriterM Unit) :=
            .lift fun free => quiet_setReservedFree free
          rw [if_pos hlt]
          exact hrest _
        · rw [if_neg hlt]
          exact rfl

/-! ### Data blocks -/

theorem quiet_writeDataBitmapBlock (bmIdx : ℕ) : Quiet (writeDataBitmapBlock bmIdx) := by
  refine .get fun w => ?_
  split
  · exact quiet_throw _
  · exact (quiet_readReservedRaw _).bind fun _ => .lift fun _ => .lift fun _ =>
      quiet_writeReserved _ _

theorem quiet_setLongs (bmIdx : ℕ) (longs : List (BitVec 32)) :
    Quiet (modify (setLongs bmIdx longs) : WriterM PUnit) := quiet_modify fun _ => rfl

theorem quiet_allocDataBlocksLoop (count n : ℕ) : ∀ bmIdx allocated,
    Quiet (allocDataBlocksLoop count n bmIdx allocated) := by
  induction n with
  | zero => exact fun _ _ => quiet_throw _
  | succ n ih =>
      intro bmIdx allocated
      unfold allocDataBlocksLoop
      refine .get fun w => ?_
      dsimp only
      refine (quiet_setLongs _ _).bind fun _ => ?_
      split
      · exact quiet_throw _
      · exact quiet_throw _
      · exact (quiet_writeDataBitmapBlock _).bind fun _ => .lift fun _ =>
          (quiet_setBlocksfree _).bind fun _ => quiet_pure _
      · split
        · exact (quiet_writeDataBitmapBlock _).bind fun _ => ih _ _
        · exact ih _ _

theorem quiet_allocDataBlocks (count : ℕ) : Quiet (allocDataBlocks count) :=
  .get fun _ => quiet_allocDataBlocksLoop _ _ _ _

theorem quiet_freeDataBlock (blk : ℕ) : Quiet (freeDataBlock blk) := by
  refine .get fun w => ?_
  split
  · exact quiet_pure _
  · dsimp only
    split
    · exact quiet_pure _
    · split
      · exact quiet_throw _
      · exact (quiet_setLongs _ _).bind fun _ => (quiet_writeDataBitmapBlock _).bind fun _ =>
          .lift fun _ => quiet_setBlocksfree _

theorem quiet_freeExtent (an : Anode) : Quiet (freeExtent an) :=
  quiet_forM (fun _ => .lift fun _ => quiet_freeDataBlock _) _

theorem quiet_freeDataBlocks (nr : ℕ) : Quiet (freeDataBlocks nr) :=
  (quiet_getChain nr).bind fun chain => quiet_forM quiet_freeExtent chain

/-! ### Anodes -/

theorem quiet_putIndexEntry (idxBlk off newBlk : ℕ) : Quiet (putIndexEntry idxBlk off newBlk) :=
  (quiet_readReservedRaw _).bind fun _ => .lift fun _ => .get fun _ => .lift fun _ =>
    quiet_writeReserved _ _

theorem quiet_allocAnodeBlock (seqnr : ℕ) : Quiet (allocAnodeBlock seqnr) := by
  refine quiet_allocReservedBlock.bind fun newBlk => .get fun w => .lift fun _ =>
    quiet_nextDatestamp.bind fun _ => .lift fun _ => .lift fun _ =>
    (quiet_writeReserved _ _).bind fun _ => .get fun w => ?_
  have hend : Quiet (do
      modify (invalidate newBlk)
      pure newBlk : WriterM ℕ) := (quiet_invalidate newBlk).bind fun _ => quiet_pure _
  dsimp only
  split
  · exact (quiet_throw _).bind fun _ => hend
  · split
    · split
      · exact (quiet_throw _).bind fun _ => hend
      · refine (quiet_onVol (Volume.keepsDev_onCache _)).bind fun _ => .lift fun idxBlk => ?_
        split
        · exact quiet_allocReservedBlock.bind fun _ => .lift fun _ =>
            quiet_nextDatestamp.bind fun _ => .lift fun _ => .lift fun _ => .lift fun _ =>
            (quiet_writeReserved _ _).bind fun _ => (quiet_putIndexEntry _ _ _).bind fun _ =>
            hend
        · exact (quiet_putIndexEntry _ _ _).bind fun _ => hend
    · split
      · exact (quiet_throw _).bind fun _ => hend
      · exact (quiet_putIndexEntry _ _ _).bind fun _ => hend

theorem quiet_allocAnodeLoop (clustersize blocknr next : ℕ) (seqnrs : List ℕ) :
    Quiet (allocAnodeLoop clustersize blocknr next seqnrs) := by
  induction seqnrs with
  | nil => exact quiet_throw _
  | cons seqnr rest ih =>
      unfold allocAnodeLoop
      refine (quiet_getAnodeBlockNr seqnr).bind fun blkNum => ?_
      split
      · exact (quiet_allocAnodeBlock _).bind fun _ => (quiet_readReservedRaw _).bind fun _ =>
          .get fun _ => .lift fun _ => (quiet_writeReserved _ _).bind fun _ => quiet_pure _
      · refine (quiet_readReservedRaw _).bind fun _ => .lift fun id => ?_
        split
        · exact ih
        · refine .get fun w => .lift fun found => ?_
          split
          · exact ih
          · exact .lift fun _ => (quiet_writeReserved _ _).bind fun _ => quiet_pure _

theorem quiet_allocAnode (clustersize blocknr next : ℕ) :
    Quiet (allocAnode clustersize blocknr next) := quiet_allocAnodeLoop _ _ _ _

theorem quiet_createAnodes (runs : List (ℕ × ℕ)) : Quiet (createAnodes runs) := by
  induction runs with
  | nil => exact quiet_pure _
  | cons run rest ih => exact ih.bind fun _ => quiet_allocAnode _ _ _

theorem quiet_createAnodeChain (blocks : List ℕ) : Quiet (createAnodeChain blocks) :=
  quiet_createAnodes _

theorem quiet_writeAnodeFields (nr clustersize blocknr next : ℕ) :
    Quiet (writeAnodeFields nr clustersize blocknr next) := by
  refine .get fun w => ?_
  split
  · exact quiet_throw _
  · exact (quiet_getAnodeBlockNr _).bind fun _ => (quiet_readReservedRaw _).bind fun _ =>
      .lift fun _ => quiet_writeReserved _ _

theorem quiet_clearAnodeChain (nr : ℕ) : Quiet (clearAnodeChain nr) :=
  (quiet_getChain nr).bind fun chain =>
    quiet_forM (fun _ => quiet_writeAnodeFields _ _ _ _) chain

theorem quiet_freeAnodeChainReserved (nr : ℕ) : Quiet (freeAnodeChainReserved nr) :=
  (quiet_getChain nr).bind fun chain => quiet_forM
    (fun _ => quiet_forM (fun _ => .lift fun _ => quiet_freeReservedBlock _) _) chain

theorem quiet_freeAndClearAnodes (anodes : List Anode) : Quiet (freeAndClearAnodes anodes) :=
  quiet_forM (fun an => (quiet_freeExtent an).bind fun _ => quiet_writeAnodeFields _ _ _ _)
    anodes

theorem quiet_truncateLoop (anodes : List Anode) : ∀ remaining,
    Quiet (truncateLoop remaining anodes) := by
  induction anodes with
  | nil => exact fun _ => quiet_pure _
  | cons an rest ih =>
      intro remaining
      unfold truncateLoop
      split
      · exact quiet_freeAndClearAnodes _
      · split
        · exact (quiet_forM (fun _ => .lift fun _ => quiet_freeDataBlock _) _).bind fun _ =>
            (quiet_writeAnodeFields _ _ _ _).bind fun _ => quiet_freeAndClearAnodes _
        · split
          · exact (quiet_writeAnodeFields _ _ _ _).bind fun _ => quiet_freeAndClearAnodes _
          · exact ih _

theorem quiet_truncateAnodeChain (head keepBlocks : ℕ) :
    Quiet (truncateAnodeChain head keepBlocks) :=
  (quiet_getChain head).bind fun _ => quiet_truncateLoop _ _

theorem quiet_appendToAnodeChain (head newHead : ℕ) :
    Quiet (appendToAnodeChain head newHead) := by
  refine (quiet_getChain head).bind fun chain => ?_
  split
  · exact quiet_throw _
  · exact quiet_writeAnodeFields _ _ _ _

/-! ### Directories -/

theorem quiet_findDirEntryLoop (name : Name) (blks : List ℕ) :
    Quiet (findDirEntryLoop name blks) := by
  induction blks with
  | nil => exact quiet_throw _
  | cons blk rest ih =>
      unfold findDirEntryLoop
      refine (quiet_readReservedRaw blk).bind fun _ => .lift fun id => ?_
      split
      · exact ih
      · refine .get fun w => .lift fun found => ?_
        split
        · exact quiet_pure _
        · exact ih

theorem quiet_findDirEntry (dirAnode : ℕ) (name : Name) : Quiet (findDirEntry dirAnode name) :=
  (quiet_getChain _).bind fun _ => quiet_findDirEntryLoop _ _

theorem quiet_addToBlocks (entryBytes : Bytes) (blks : List ℕ) :
    Quiet (addToBlocks entryBytes blks) := by
  induction blks with
  | nil => exact quiet_pure _
  | cons blk rest ih =>
      unfold addToBlocks
      refine (quiet_readReservedRaw blk).bind fun _ => .lift fun id => ?_
      split
      · exact ih
      · refine .get fun w => .lift fun pos => ?_
        split
        · exact .lift fun _ => .lift fun _ => quiet_nextDatestamp.bind fun _ => .lift fun _ =>
            (quiet_writeReserved _ _).bind fun _ => quiet_pure _
        · exact ih

theorem quiet_addDirEntry (dirAnode : ℕ) (name : Name) (entryType : ℤ)
    (anode fsize protection : ℕ) :
    Quiet (addDirEntry dirAnode name entryType anode fsize protection) := by
  refine quiet_currentAmigaDatestamp.bind fun now => (quiet_getChain _).bind fun chain =>
    (quiet_addToBlocks _ _).bind fun placed => ?_
  split
  · exact quiet_pure _
  · exact quiet_allocReservedBlock.bind fun _ => .get fun _ => .lift fun _ =>
      quiet_nextDatestamp.bind fun _ => .lift fun _ => .lift fun _ => .lift fun _ =>
      .lift fun _ => (quiet_writeReserved _ _).bind fun _ =>
      (quiet_allocAnode _ _ _).bind fun _ => quiet_appendToAnodeChain _ _

theorem quiet_removeDirEntry (dirAnode : ℕ) (name : Name) :
    Quiet (removeDirEntry dirAnode name) := by
  refine (quiet_findDirEntry _ _).bind fun _ => .get fun _ => .lift fun _ => .lift fun _ => ?_
  split
  · exact quiet_throw _
  · exact quiet_nextDatestamp.bind fun _ => .lift fun _ => quiet_writeReserved _ _

theorem quiet_updateDirEntrySize (dirAnode : ℕ) (name : Name) (newSize : ℕ) :
    Quiet (updateDirEntrySize dirAnode name newSize) := by
  have hend : ∀ blk (data : Bytes) pos, Quiet (do
      let now ← currentAmigaDatestamp
      let data ← putU16 data (pos + 10) now.day
      let data ← putU16 data (pos + 12) now.minute
      let data ← putU16 data (pos + 14) now.tick
      let ds ← nextDatestamp
      let data ← putU32 data 4 ds
      writeReserved blk data : WriterM Unit) := fun _ _ _ =>
    quiet_currentAmigaDatestamp.bind fun _ => .lift fun _ => .lift fun _ => .lift fun _ =>
      quiet_nextDatestamp.bind fun _ => .lift fun _ => quiet_writeReserved _ _
  refine (quiet_findDirEntry _ _).bind fun found => .lift fun _ => .lift fun _ => .lift fun _ =>
    .lift fun fp => ?_
  dsimp only
  split
  · exact .lift fun _ => hend _ _ _
  · exact (quiet_pure _).bind fun _ => hend _ _ _

/-! ### Deleted entries -/

theorem quiet_fillDeldirSlot (entry : DirEntry) (entriesPerBlock : ℕ) (blks : List ℕ) :
    Quiet (fillDeldirSlot entry entriesPerBlock blks) := by
  induction blks with
  | nil => exact quiet_pure _
  | cons blk rest ih =>
      unfold fillDeldirSlot
      refine (quiet_readReservedRaw blk).tryOk.bind fun data => ?_
      split
      · exact ih
      · refine .lift fun id => ?_
        split
        · exact ih
        · split
          · exact ih
          · exact .lift fun _ => (quiet_writeReserved _ _).bind fun _ => quiet_pure _

theorem quiet_moveToDeldir (entry : DirEntry) : Quiet (moveToDeldir entry) := by
  refine .get fun w => ?_
  split
  · exact quiet_pure _
  · split
    · exact quiet_pure _
    · rename_i blk blks _
      refine (quiet_fillDeldirSlot _ _ _).bind fun filled => ?_
      split
      · exact quiet_pure _
      · refine (quiet_readReservedRaw blk).tryOk.bind fun data => ?_
        split
        · exact quiet_pure _
        · have hend : ∀ data : Bytes, Quiet (do
              let blockData ← writeDeldirEntry data DELDIR_HEADER_SIZE entry
              writeReserved blk blockData
              pure true : WriterM Bool) := fun _ =>
            .lift fun _ => (quiet_writeReserved _ _).bind fun _ => quiet_pure _
          refine .lift fun evictAnode => ?_
          split
          · exact (quiet_freeDataBlocks _).tryOk.bind fun _ =>
              (quiet_clearAnodeChain _).tryOk.bind fun _ => hend _
          · exact hend _

/-! ### Bitmaps -/

theorem quiet_loadReservedBitmap : Quiet loadReservedBitmap := by
  intro w
  unfold loadReservedBitmap
  rw [bind_of_ok (rfl : (get : WriterM Writer) w = .ok w w)]
  dsimp only
  cases w.vol.dev.readBlocks w.firstreserved w.vol.rootblock.rblkcluster
    (w.vol.rootblock.rblkcluster * SECTOR_SIZE) <;> exact rfl

theorem quiet_loadDataBitmapLoop (seqs : List ℕ) : Quiet (loadDataBitmapLoop seqs) := by
  induction seqs with
  | nil => exact quiet_pure _
  | cons seq rest ih =>
      unfold loadDataBitmapLoop
      refine Quiet.bind (.get fun _ => quiet_onVol (Volume.keepsDev_onCache _)) fun found => ?_
      split
      · exact ih
      · refine (quiet_readReservedRaw _).bind fun data => ?_
        intro w
        exact ih { w with dataBm := w.dataBm ++ [_] }

theorem quiet_loadDataBitmap : Quiet loadDataBitmap :=
  .get fun _ => quiet_loadDataBitmapLoop _

/-! ### Commit -/

theorem confined_flushWrites (writes : List (ℕ × Bytes)) : Confined (flushWrites writes) := by
  induction writes with
  | nil => exact (quiet_pure _).confined
  | cons write rest ih =>
      exact .get fun w => (confined_onDev (Device.frame_writeReservedBlocks _ _ _)).bind fun _ =>
        (quiet_invalidate _).confined.bind fun _ => ih

theorem confined_flushPending : Confined flushPending := by
  intro w
  unfold flushPending
  rw [bind_of_ok (rfl : (get : WriterM Writer) w = .ok w w)]
  exact ((confined_flushWrites w.pendingWrites).bind fun _ => quiet_flush.confined)
    { w with pendingWrites := [] }

theorem confined_updateRootblock : Confined updateRootblock :=
  confined_flushPending.bind fun _ => .get fun _ => .lift fun _ => quiet_nextDatestamp.confined.bind
    fun _ => .lift fun _ => .lift fun _ => .lift fun _ =>
    (confined_onDev (Device.frame_writeBlocks _ _ _)).bind fun _ => quiet_flush.confined

/-! ### Calls -/

theorem confined_writeDataBlocks (blks : List ℕ) : ∀ data, Confined (writeDataBlocks blks data) := by
  induction blks with
  | nil => exact fun _ => (quiet_pure _).confined
  | cons blk rest ih =>
      exact fun data => (confined_onDev (Device.frame_writeBlock _ _)).bind fun _ => ih _

theorem confined_storeData (data : Bytes) : Confined (storeData data) :=
  (quiet_allocDataBlocks _).confined.bind fun _ => (confined_writeDataBlocks _ _).bind fun _ =>
    quiet_flush.confined.bind fun _ => (quiet_createAnodeChain _).confined

theorem confined_writeFileInNoCommit (parentAnode : ℕ) (name : Name) (data : Bytes) :
    Confined (writeFileInNoCommit parentAnode name data) :=
  (confined_storeData data).bind fun _ => (quiet_addDirEntry _ _ _ _ _ _).confined

theorem confined_overwriteFileIn (parentAnode : ℕ) (name : Name) (fileAnode : ℕ) (data : Bytes) :
    Confined (overwriteFileIn parentAnode name fileAnode data) := by
  have hend : Confined (do
      updateDirEntrySize parentAnode name data.length
      updateRootblock : WriterM Unit) :=
    (quiet_updateDirEntrySize _ _ _).confined.bind fun _ => confined_updateRootblock
  refine (quiet_getChain fileAnode).confined.bind fun chain => ?_
  dsimp only
  split
  · exact (quiet_throw _).confined
  · refine (confined_writeDataBlocks _ _).bind fun _ => quiet_flush.confined.bind fun _ => ?_
    split
    · exact (quiet_truncateAnodeChain _ _).confined.bind fun _ => hend
    · exact (quiet_allocDataBlocks _).confined.bind fun _ => (confined_writeDataBlocks _ _).bind fun _ =>
        quiet_flush.confined.bind fun _ => (quiet_createAnodeChain _).confined.bind fun _ =>
        (quiet_appendToAnodeChain _ _).confined.bind fun _ => hend

theorem confined_writeFileIn (parentAnode : ℕ) (name : Name) (data : Bytes) :
    Confined (writeFileIn parentAnode name data) := by
  have hcreate : Confined (do
      writeFileInNoCommit parentAnode name data
      updateRootblock : WriterM Unit) :=
    (confined_writeFileInNoCommit _ _ _).bind fun _ => confined_updateRootblock
  refine (quiet_findDirEntry _ _).tryOk.confined.bind fun found => ?_
  split
  · exact hcreate
  · refine .lift fun ty => ?_
    extract_lets entryType
    split
    · exact .lift fun _ => confined_overwriteFileIn _ _ _ _
    · exact hcreate

theorem confined_createDirIn (parentAnode : ℕ) (name : Name) :
    Confined (createDirIn parentAnode name) :=
  quiet_allocReservedBlock.confined.bind fun _ => (quiet_allocAnode _ _ _).confined.bind fun _ =>
    .get fun _ => .lift fun _ => quiet_nextDatestamp.confined.bind fun _ => .lift fun _ =>
    .lift fun _ => .lift fun _ => (quiet_writeReserved _ _).confined.bind fun _ =>
    (quiet_addDirEntry _ _ _ _ _ _).confined.bind fun _ => confined_updateRootblock

theorem confined_createSoftlinkIn (parentAnode : ℕ) (name target : Name) :
    Confined (createSoftlinkIn parentAnode name target) :=
  (confined_storeData _).bind fun _ => (quiet_addDirEntry _ _ _ _ _ _).confined.bind fun _ =>
    confined_updateRootblock

theorem confined_createHardlink (path : Name) (targetAnode : ℕ) :
    Confined (createHardlink path targetAnode) :=
  (quiet_splitPath path).confined.bind fun _ => (quiet_addDirEntry _ _ _ _ _ _).confined.bind fun _ =>
    confined_updateRootblock

theorem confined_deleteIn (parentAnode : ℕ) (name : Name) : Confined (deleteIn parentAnode name) := by
  have hend : Confined (do
      removeDirEntry parentAnode name
      updateRootblock : WriterM Unit) :=
    (quiet_removeDirEntry _ _).confined.bind fun _ => confined_updateRootblock
  refine (quiet_onVol (Volume.keepsDev_listDirByAnode _)).confined.bind fun entries => ?_
  split
  · exact (quiet_throw _).confined
  · split
    · refine (quiet_onVol (Volume.keepsDev_listDirByAnode _)).confined.bind fun sub => ?_
      split
      · exact (quiet_throw _).confined.bind fun _ => hend
      · exact (quiet_freeAnodeChainReserved _).confined.bind fun _ =>
          (quiet_clearAnodeChain _).confined.bind fun _ => hend
    · refine (quiet_moveToDeldir _).confined.bind fun moved => ?_
      split
      · exact hend
      · exact (quiet_freeDataBlocks _).confined.bind fun _ =>
          (quiet_clearAnodeChain _).confined.bind fun _ => hend

theorem confined_setVolumeName (name : Name) : Confined (setVolumeName name) := by
  have hname : ∀ diskname, Confined (modify fun w =>
      { w with vol.rootblock.diskname := diskname } : WriterM PUnit) := fun _ =>
    (quiet_modify fun _ => rfl).confined
  exact .lift fun _ => (hname _).bind fun _ => .get fun _ => .lift fun _ =>
    .lift fun _ => .lift fun _ => .lift fun _ => quiet_nextDatestamp.confined.bind fun _ =>
    .lift fun _ => (confined_onDev (Device.frame_writeBlocks _ _ _)).bind fun _ => quiet_flush.confined

theorem confined_updateDirEntryProtection (dirAnode : ℕ) (name : Name) (protection : UInt8) :
    Confined (updateDirEntryProtection dirAnode name protection) :=
  (quiet_findDirEntry _ _).confined.bind fun _ => .lift fun _ => quiet_nextDatestamp.confined.bind fun _ =>
    .lift fun _ => (quiet_writeReserved _ _).confined.bind fun _ => confined_updateRootblock

theorem confined_renameIn (srcParent : ℕ) (srcName : Name) (dstParent : ℕ) (dstName : Name) :
    Confined (renameIn srcParent srcName dstParent dstName) := by
  refine (quiet_onVol (Volume.keepsDev_listDirByAnode _)).confined.bind fun entries => ?_
  split
  · exact (quiet_throw _).confined
  · rename_i entry _
    have hend : Confined (do
        addDirEntry dstParent dstName entry.entryType entry.anode entry.fileSize entry.protection
        removeDirEntry srcParent srcName
        updateRootblock : WriterM Unit) :=
      (quiet_addDirEntry _ _ _ _ _ _).confined.bind fun _ => (quiet_removeDirEntry _ _).confined.bind fun _ =>
        confined_updateRootblock
    refine (quiet_onVol (Volume.keepsDev_listDirByAnode _)).tryOk.confined.bind fun dst => ?_
    split
    · exact (confined_deleteIn _ _).bind fun _ => hend
    · exact hend

theorem confined_undelete (deldirIdx : ℕ) (destPath : Name) :
    Confined (undelete deldirIdx destPath) := by
  refine .get fun w => ?_
  split
  · exact (quiet_throw _).confined
  · dsimp only
    split
    · exact (quiet_throw _).confined
    · split
      · exact (quiet_throw _).confined
      · refine (quiet_readReservedRaw _).confined.bind fun data => ?_
        split
        · exact (quiet_throw _).confined
        · split
          · exact (quiet_throw _).confined
          · refine (quiet_onVol (Volume.keepsDev_lookup _)).confined.bind fun found => ?_
            split
            · exact (quiet_throw _).confined
            · exact (quiet_onVol (Volume.keepsDev_readFileData _ _)).confined.bind fun _ =>
                (quiet_splitPath _).confined.bind fun _ =>
                (confined_writeFileInNoCommit _ _ _).bind fun _ =>
                (quiet_clearAnodeChain _).tryOk.confined.bind fun _ =>
                (quiet_readReservedRaw _).confined.bind fun _ => .lift fun _ =>
                (quiet_writeReserved _ _).confined.bind fun _ => confined_updateRootblock

/-! ### Opening -/

/-- Opening for writing changes no sector behind the end. -/
theorem within_of_open {v : Volume} {clock : ℕ → Datestamp} {w : Writer}
    (h : Writer.open v clock = .ok w) : v.dev.Within w.vol.dev := by
  unfold Writer.open at h
  obtain ⟨w₀, hof, h⟩ := of_bind_ok h
  have hvol : w₀.vol = v := by
    unfold ofVolume at hof
    dsimp only at hof
    split at hof
    · cases hof
    · cases hof
      rfl
  have hload := (quiet_loadReservedBitmap.confined.bind fun _ => quiet_loadDataBitmap.confined) w₀
  split at h
  · rename_i hrun
    cases h
    rw [hrun] at hload
    exact hvol ▸ hload
  · cases h

/-! ## Runs -/

/-- The operations of a writer. -/
inductive Op
  | writeFile (path : Name) (data : Bytes)
  | createDir (path : Name)
  | delete (path : Name)
  | setVolumeName (name : Name)
  | writeFileIn (parentAnode : ℕ) (name : Name) (data : Bytes)
  | createDirIn (parentAnode : ℕ) (name : Name)
  | createSoftlink (path target : Name)
  | createSoftlinkIn (parentAnode : ℕ) (name target : Name)
  | createHardlink (path : Name) (targetAnode : ℕ)
  | undelete (deldirIdx : ℕ) (destPath : Name)
  | forceRemoveEntry (parentAnode : ℕ) (name : Name)
  | repairBlocksfree (correctFree : ℕ)
  | repairReservedFree (correctFree : ℕ)
  | overwriteFileIn (parentAnode : ℕ) (name : Name) (fileAnode : ℕ) (data : Bytes)
  | updateDirEntryProtection (dirAnode : ℕ) (name : Name) (protection : UInt8)
  | renameIn (srcParent : ℕ) (srcName : Name) (dstParent : ℕ) (dstName : Name)
  | deleteIn (parentAnode : ℕ) (name : Name)

def Op.run : Op → WriterM Unit
  | writeFile path data => Writer.writeFile path data
  | createDir path => Writer.createDir path
  | delete path => Writer.delete path
  | setVolumeName name => Writer.setVolumeName name
  | writeFileIn parentAnode name data => Writer.writeFileIn parentAnode name data
  | createDirIn parentAnode name => Writer.createDirIn parentAnode name
  | createSoftlink path target => Writer.createSoftlink path target
  | createSoftlinkIn parentAnode name target => Writer.createSoftlinkIn parentAnode name target
  | createHardlink path targetAnode => Writer.createHardlink path targetAnode
  | undelete deldirIdx destPath => Writer.undelete deldirIdx destPath
  | forceRemoveEntry parentAnode name => Writer.forceRemoveEntry parentAnode name
  | repairBlocksfree correctFree => Writer.repairBlocksfree correctFree
  | repairReservedFree correctFree => Writer.repairReservedFree correctFree
  | overwriteFileIn parentAnode name fileAnode data =>
      Writer.overwriteFileIn parentAnode name fileAnode data
  | updateDirEntryProtection dirAnode name protection =>
      Writer.updateDirEntryProtection dirAnode name protection
  | renameIn srcParent srcName dstParent dstName =>
      Writer.renameIn srcParent srcName dstParent dstName
  | deleteIn parentAnode name => Writer.deleteIn parentAnode name

/-- One operation. -/
theorem confined_run (op : Op) : Confined op.run := by
  cases op with
  | writeFile path data => exact (quiet_splitPath path).confined.bind fun _ => confined_writeFileIn _ _ _
  | createDir path => exact (quiet_splitPath path).confined.bind fun _ => confined_createDirIn _ _
  | delete path => exact (quiet_splitPath path).confined.bind fun _ => confined_deleteIn _ _
  | setVolumeName name => exact confined_setVolumeName name
  | writeFileIn => exact confined_writeFileIn _ _ _
  | createDirIn => exact confined_createDirIn _ _
  | createSoftlink path =>
      exact (quiet_splitPath path).confined.bind fun _ => confined_createSoftlinkIn _ _ _
  | createSoftlinkIn => exact confined_createSoftlinkIn _ _ _
  | createHardlink => exact confined_createHardlink _ _
  | undelete => exact confined_undelete _ _
  | forceRemoveEntry =>
      exact (quiet_removeDirEntry _ _).confined.bind fun _ => confined_updateRootblock
  | repairBlocksfree => exact (quiet_setBlocksfree _).confined.bind fun _ => confined_updateRootblock
  | repairReservedFree =>
      exact (quiet_setReservedFree _).confined.bind fun _ => confined_updateRootblock
  | overwriteFileIn => exact confined_overwriteFileIn _ _ _ _
  | updateDirEntryProtection => exact confined_updateDirEntryProtection _ _ _
  | renameIn => exact confined_renameIn _ _ _ _
  | deleteIn => exact confined_deleteIn _ _

/-- The writer after some operations, each made however the one before it ended. -/
def after (ops : List Op) (w : Writer) : Writer := ops.foldl (fun w op => leaves (op.run w)) w

/-- All of them. -/
theorem within_after (ops : List Op) : ∀ w, DevWithin w (after ops w) := by
  induction ops with
  | nil => exact DevWithin.refl
  | cons op rest ih =>
      intro w
      exact .trans _ _ _ (frame_iff_leaves.1 (confined_run op) w) (ih _)

end Writer

/-! ## The formatter -/

namespace Format

variable {α β : Type}

theorem frame_writeImage (l : Layout) (blk : ℕ) (fields : List (ℕ × Bytes)) :
    Frame Device.Within (writeImage l blk fields) := by
  refine .bind Device.Within.trans (fun d => ?_) fun _ => Device.frame_writeReservedBlocks _ _ _
  cases putAll fields (List.replicate l.resblocksize 0) <;> exact .refl d

theorem frame_writeImages (l : Layout) (fields : ℕ → List (ℕ × Bytes)) (blks : List ℕ) :
    ∀ seq, Frame Device.Within (writeImages l fields seq blks) := by
  induction blks with
  | nil => exact fun _ => Device.Within.refl
  | cons blk rest ih =>
      exact fun seq => .bind Device.Within.trans (frame_writeImage _ _ _) fun _ => ih _

theorem frame_formatWithSize (totalBlocks : ℕ) (opts : FormatOptions) (now : Datestamp) :
    Frame Device.Within (formatWithSize totalBlocks opts now) := by
  have hlift : ∀ {α β : Type} {e : Except Fault α} {k : α → EStateM Fault Device β},
      (∀ a, Frame Device.Within (k a)) → Frame Device.Within (liftM e >>= k) := by
    intro α β e k hk
    refine .bind Device.Within.trans (fun d => ?_) hk
    cases e <;> exact .refl d
  have hseq : ∀ {α β : Type} {m : EStateM Fault Device α} {k : α → EStateM Fault Device β},
      Frame Device.Within m → (∀ a, Frame Device.Within (k a)) → Frame Device.Within (m >>= k) :=
    fun h hk => .bind Device.Within.trans h hk
  unfold formatWithSize
  dsimp only
  refine hlift fun numreserved => hlift fun found => ?_
  split
  · exact Device.Within.refl
  · refine hseq (Device.frame_writeBlock _ _) fun _ => hseq (Device.frame_writeBlock _ _) fun _ =>
      hlift fun _ => hlift fun _ => hlift fun _ => hlift fun _ => hlift fun _ => hlift fun _ =>
      hseq (frame_forM Device.Within.refl Device.Within.trans _
        fun _ _ => Device.frame_writeBlock _ _) fun _ =>
      hseq (frame_writeImage _ _ _) fun _ => hseq (frame_writeImages _ _ _ _) fun _ => ?_
    have hend : ∀ l : Layout, ∀ fields seq blks res, Frame Device.Within (do
        writeImages l fields seq blks
        writeImage l l.anidxBlk (anidxFields l)
        writeImage l l.anodeBlk (anodeFields l)
        writeImage l l.rootdirBlk rootdirFields
        Device.flush
        pure res : EStateM Fault Device FormatResult) := fun l fields seq blks res =>
      hseq (frame_writeImages _ _ _ _) fun _ => hseq (frame_writeImage _ _ _) fun _ =>
        hseq (frame_writeImage _ _ _) fun _ => hseq (frame_writeImage _ _ _) fun _ =>
        hseq Device.Within.refl fun _ => Device.Within.refl
    split
    · exact hseq Device.Within.refl fun _ => hend _ _ _ _ _
    · exact hend _ _ _ _ _

end Format

end Pfs3
