import Pfs3.Store.SimAnodes

/-!
# Simulation: directory entries

Finding, adding, removing and resizing entries, on the directory blocks as the queue of
pending writes shows them.
-/

namespace Pfs3

open ByteList BlockCache Stop

namespace Rep

variable {g : Geometry} {w : Writer} {S : Store}

/-- Queueing a directory block. -/
theorem setDir (h : Rep g w S) {b ds : ℕ} {d : DirBlock} (hb : S.Usable b) (hfit : d.Fits) :
    Rep g (Writer.queued b (dirImage ds d) w) (Store.setDir b (some d) S) := by
  have hfree : ∀ s, S.live.index s ≠ b := by
    intro s hs
    have hne : S.live.index s ≠ 0 := by rw [hs]; exact hb.1.pos
    exact hb.2 s (h.liveWf.indexed s hne).1 hs
  exact h.queued (Or.inl hb.1) (length_dirImage hfit) (h.live.setDir hb.1 hfree)
    (h.liveWf.setDir hb.1 hfree hfit) h.index rfl

theorem dir_usable (h : Rep g w S) {b : ℕ} {d : DirBlock} (hd : S.live.dir b = some d) :
    S.Usable b :=
  ⟨(h.liveWf.dir b d hd).2.1, fun s _ => (h.liveWf.dir b d hd).2.2 s⟩

/-- Writing a directory block whose image is known to have room. -/
theorem writeDir (h : Rep g w S) {b ds : ℕ} {d : DirBlock} (hfit : d.Fits) :
    Sim (Rep g) Eq (Writer.writeReserved b (dirImage ds d)) (Store.writeDir b d) w S := by
  refine sim_get_right ?_
  by_cases hb : S.Usable b
  · rw [if_pos hb]
    exact sim_of_ok rfl rfl rfl (h.setDir hb hfit)
  · rw [if_neg hb]
    exact sim_stuck

/-- Reading a directory block through the queue. -/
theorem readDir_run (h : Rep g w S) {b : ℕ} {d : DirBlock} (hd : S.live.dir b = some d) :
    ∃ ds, Writer.readReservedRaw b w = .ok (dirImage ds d) w := by
  obtain ⟨ds, himage⟩ := h.live.dirs b d hd
  exact ⟨ds, by rw [h.readReservedRaw (h.dir_usable hd).1.isReserved, himage]⟩

theorem readDir_ok {b : ℕ} {d : DirBlock} (hd : S.live.dir b = some d) :
    Store.readDir b S = .ok d S := by
  have hread : S.live.readDir b = .ok d := by rw [Meta.readDir, hd]
  unfold Store.readDir
  rw [bind_of_ok (rfl : (get : StoreM Store) S = .ok S S), hread]
  rfl

theorem readDir_stuck {b : ℕ} (hd : S.live.dir b = none) :
    Store.readDir b S = .error .stuck S := by
  have hread : S.live.readDir b = .error .stuck := by rw [Meta.readDir, hd]
  unfold Store.readDir
  rw [bind_of_ok (rfl : (get : StoreM Store) S = .ok S S), hread]
  rfl

/-- What `find_dir_entry` returns: the block's content and the byte position of the entry. -/
def Found (p : ℕ × Bytes × ℕ) (q : ℕ × DirBlock × ℕ) : Prop :=
  ∃ ds, p = (q.1, dirImage ds q.2.1, 20 + entriesSize (q.2.1.entries.take q.2.2)) ∧
    q.2.1.Fits ∧ ∃ e, q.2.1.entries[q.2.2]? = some e

theorem id_dirImage {α : Type} {ds : ℕ} {d : DirBlock} (hfit : d.Fits) {k : ℕ → WriterM α}
    {β : Type} {Q : α → β → Prop} {n : StoreM β}
    (hk : Sim (Rep g) Q (k DBLKID) n w S) :
    Sim (Rep g) Q ((liftM (readU16 (dirImage ds d) 0) : WriterM ℕ) >>= k) n w S := by
  refine sim_lift_ok (readU16_ok ?_) ?_
  · rw [length_dirImage hfit]
    omega
  · rw [be16_dirImage]
    exact hk

theorem findDirEntryLoop (name : Name) (blocks : List ℕ) : ∀ {w : Writer} {S : Store}, Rep g w S →
    Sim (Rep g) Found (Writer.findDirEntryLoop name blocks) (Store.findDirEntryLoop name blocks)
      w S := by
  induction blocks with
  | nil => intro w S h; exact sim_throw h
  | cons b rest ih =>
      intro w S h
      unfold Writer.findDirEntryLoop Store.findDirEntryLoop
      rcases hd : S.live.dir b with _ | d
      · exact sim_of_stuck (bind_of_error (readDir_stuck hd))
      · have hfit := (h.liveWf.dir b d hd).1
        obtain ⟨ds, hraw⟩ := h.readDir_run hd
        refine sim_right (readDir_ok hd) ?_
        refine sim_left hraw (id_dirImage hfit ?_)
        rw [if_neg (fun hne => hne rfl)]
        refine sim_get_left ?_
        rw [h.resblocksize]
        refine sim_lift_ok (findInBlock_dirImage hfit name) ?_
        rcases hfind : d.entries.findIdx? fun e => nameEqCi e.text name with _ | i
        · rw [hfind]
          exact ih h
        · rw [hfind]
          obtain ⟨hi, -⟩ := List.findIdx?_eq_some_iff_getElem.mp hfind
          exact sim_pure ⟨ds, rfl, hfit, _, List.getElem?_eq_getElem hi⟩ h

theorem findDirEntry (h : Rep g w S) (dirAnode : ℕ) (name : Name) :
    Sim (Rep g) Found (Writer.findDirEntry dirAnode name) (Store.findDirEntry dirAnode name)
      w S := by
  refine (h.getChain dirAnode).bind ?_
  rintro chain _ w S rfl h
  exact findDirEntryLoop name _ h

/-! ## Adding -/

/-- Placing an entry behind the others of a block with room. -/
theorem place_run (h : Rep g w S) {b ds : ℕ} {d : DirBlock} {e : Entry} {α : Type}
    (hroom : Store.HasRoom d e.size) (a : α) :
    Sim (Rep g) Eq
      (do
        let data ← putBytes (dirImage ds d) (20 + d.size) e.bytes
        let data ← putBytes data (20 + d.size + e.size) [0]
        let ds ← Writer.nextDatestamp
        let data ← putU32 data 4 ds
        Writer.writeReserved b data
        pure a : WriterM α)
      (do
        let _ ← Store.nextDatestamp
        Store.writeDir b { d with entries := d.entries ++ [e] }
        pure a : StoreM α) w S := by
  have hfit : DirBlock.Fits { d with entries := d.entries ++ [e] } := by
    unfold DirBlock.Fits
    rw [size_append]
    unfold Store.HasRoom at hroom
    omega
  have hmark := @mark_dirImage ds { d with entries := d.entries ++ [e] } hfit
  rw [size_append, ← Nat.add_assoc] at hmark
  refine sim_lift_ok (place_dirImage hroom) (sim_lift_ok hmark ?_)
  refine h.nextDatestamp.bind ?_
  rintro ds' _ w S rfl h
  refine sim_lift_ok (stamp_dirImage _ _ _) ?_
  refine (h.writeDir hfit).bind ?_
  rintro _ _ w S - h
  exact sim_pure rfl h

theorem addToBlocks (e : Entry) (blocks : List ℕ) : ∀ {w : Writer} {S : Store}, Rep g w S →
    Sim (Rep g) Eq (Writer.addToBlocks e.bytes blocks) (Store.addToBlocks e blocks) w S := by
  induction blocks with
  | nil => intro w S h; exact sim_pure rfl h
  | cons b rest ih =>
      intro w S h
      unfold Writer.addToBlocks Store.addToBlocks
      rcases hd : S.live.dir b with _ | d
      · exact sim_of_stuck (bind_of_error (readDir_stuck hd))
      · have hfit := (h.liveWf.dir b d hd).1
        obtain ⟨ds, hraw⟩ := h.readDir_run hd
        refine sim_right (readDir_ok hd) ?_
        refine sim_left hraw (id_dirImage hfit ?_)
        rw [if_neg (fun hne => hne rfl)]
        refine sim_get_left ?_
        rw [h.resblocksize]
        refine sim_lift_ok (endOfEntries_dirImage hfit) ?_
        rw [Entry.length_bytes]
        by_cases hroom : Store.HasRoom d e.size
        · rw [if_pos hroom, if_pos (show 20 + d.size + e.size < 1024 from hroom)]
          exact h.place_run hroom true
        · rw [if_neg hroom, if_neg (show ¬ 20 + d.size + e.size < 1024 from hroom)]
          exact ih h

theorem extendAnodeChain (h : Rep g w S) (head newBlk : ℕ) :
    Sim (Rep g) Eq (Writer.extendAnodeChain head newBlk) (Store.extendAnodeChain head newBlk)
      w S := by
  refine (h.allocAnode 1 newBlk 0).bind ?_
  rintro nr _ w S rfl h
  exact h.appendToAnodeChain head nr

section Fresh

variable {α β : Type} {Q : α → β → Prop} {k : WriterM α} {k' : StoreM β} {b anodenr parent : ℕ}

/-- A new directory block without entries. -/
theorem newDir (h : Rep g w S) (hk : ∀ w S, Rep g w S → Sim (Rep g) Q k k' w S) :
    Sim (Rep g) Q
      (do
        let w ← get
        let dirData ← putU16 (List.replicate w.resblocksize 0) 0x00 DBLKID
        let ds ← Writer.nextDatestamp
        let dirData ← putU32 dirData 0x04 ds
        let dirData ← putU32 dirData 0x0C anodenr
        let dirData ← putU32 dirData 0x10 parent
        Writer.writeReserved b dirData
        k : WriterM α)
      (do
        let _ ← Store.nextDatestamp
        Store.writeDir b ⟨anodenr, parent, []⟩
        k' : StoreM β) w S := by
  refine sim_get_left ?_
  rw [h.resblocksize]
  have hfresh := fun ds => fresh_dirImage ds anodenr parent
  obtain ⟨data, h₁, -⟩ := of_bind_ok (hfresh 0)
  refine sim_lift_ok h₁ ?_
  refine h.nextDatestamp.bind ?_
  rintro ds _ w S rfl h
  have hfresh := hfresh ds
  rw [h₁, ok_bind] at hfresh
  obtain ⟨data₂, h₂, hfresh⟩ := of_bind_ok hfresh
  obtain ⟨data₃, h₃, hfresh⟩ := of_bind_ok hfresh
  refine sim_lift_ok h₂ (sim_lift_ok h₃ (sim_lift_ok hfresh ?_))
  have hfit : DirBlock.Fits ⟨anodenr, parent, []⟩ := by
    unfold DirBlock.Fits DirBlock.size
    simp
  exact (h.writeDir hfit).bind fun _ _ w S _ h => hk w S h

/-- A new directory block that holds one entry. -/
theorem newDirEntry (h : Rep g w S) (e : Entry) (hk : ∀ w S, Rep g w S → Sim (Rep g) Q k k' w S) :
    Sim (Rep g) Q
      (do
        let w ← get
        let newData ← putU16 (List.replicate w.resblocksize 0) 0 DBLKID
        let ds ← Writer.nextDatestamp
        let newData ← putU32 newData 4 ds
        let newData ← putU32 newData 0x0C anodenr
        let newData ← putU32 newData 0x10 parent
        let newData ← putBytes newData DIR_BLOCK_HEADER_SIZE e.bytes
        Writer.writeReserved b newData
        k : WriterM α)
      (do
        let _ ← Store.nextDatestamp
        Store.writeDir b ⟨anodenr, parent, [e]⟩
        k' : StoreM β) w S := by
  refine sim_get_left ?_
  rw [h.resblocksize]
  have hfresh := fun ds => fresh_dirImage ds anodenr parent
  obtain ⟨data, h₁, -⟩ := of_bind_ok (hfresh 0)
  refine sim_lift_ok h₁ ?_
  refine h.nextDatestamp.bind ?_
  rintro ds _ w S rfl h
  have hfresh := hfresh ds
  rw [h₁, ok_bind] at hfresh
  obtain ⟨data₂, h₂, hfresh⟩ := of_bind_ok hfresh
  obtain ⟨data₃, h₃, hfresh⟩ := of_bind_ok hfresh
  have hsize := e.size_le
  have hempty : DirBlock.size ⟨anodenr, parent, []⟩ = 0 := rfl
  have hplace := @place_dirImage ds ⟨anodenr, parent, []⟩ e (by rw [hempty]; omega)
  refine sim_lift_ok h₂ (sim_lift_ok h₃ (sim_lift_ok hfresh (sim_lift_ok hplace ?_)))
  have hfit : DirBlock.Fits ⟨anodenr, parent, [e]⟩ := by
    unfold DirBlock.Fits DirBlock.size
    simp only [List.map_cons, List.map_nil, List.sum_cons, List.sum_nil]
    omega
  exact (h.writeDir hfit).bind fun _ _ w S _ h => hk w S h

end Fresh

theorem addDirEntry (h : Rep g w S) (dirAnode : ℕ) (name : Name) (entryType : ℤ)
    (anode fsize protection : ℕ) :
    Sim (Rep g) Eq (Writer.addDirEntry dirAnode name entryType anode fsize protection)
      (Store.addDirEntry dirAnode name entryType anode fsize protection) w S := by
  refine h.currentAmigaDatestamp.bind ?_
  rintro now _ w S rfl h
  rw [buildDirEntry_eq]
  refine (h.getChain dirAnode).bind ?_
  rintro chain _ w S rfl h
  refine (addToBlocks _ _ h).bind ?_
  rintro placed _ w S rfl h
  cases placed with
  | true => exact sim_pure rfl h
  | false =>
      refine h.allocReservedBlock.bind ?_
      rintro newBlk _ w S rfl h
      exact h.newDirEntry _ fun w S h => h.extendAnodeChain dirAnode newBlk

/-! ## Removing and resizing -/

theorem removeDirEntry (h : Rep g w S) (dirAnode : ℕ) (name : Name) :
    Sim (Rep g) Eq (Writer.removeDirEntry dirAnode name) (Store.removeDirEntry dirAnode name)
      w S := by
  refine (h.findDirEntry dirAnode name).bind ?_
  rintro _ ⟨b, d, i⟩ w S ⟨ds, rfl, hfit, e, he⟩ h
  dsimp only at hfit he ⊢
  have hentry := @entryAt_dirImage ds d i e he
  have hle := hentry.le_length
  have hlen : (dirImage ds d).length = 1024 := length_dirImage hfit
  have hpos := Entry.name_lt_size e
  have hnew : DirBlock.Fits { d with entries := d.entries.eraseIdx i } := by
    unfold DirBlock.Fits at hfit ⊢
    rw [dirBlock_size, List.eraseIdx_eq_take_drop_succ, entriesSize_append]
    have hsize := size_split he
    omega
  refine sim_get_left ?_
  refine sim_lift_ok (readU8_ok (by omega)) ?_
  rw [hentry.esize, h.resblocksize]
  have hsub : subU32 1024 (20 + entriesSize (d.entries.take i) + e.size) =
      .ok (1024 - (20 + entriesSize (d.entries.take i) + e.size)) := if_pos (by omega)
  refine sim_lift_ok hsub ?_
  rw [if_neg (by omega), erase_dirImage hfit he]
  refine h.nextDatestamp.bind ?_
  rintro ds' _ w S rfl h
  exact sim_lift_ok (stamp_dirImage _ _ _) (h.writeDir hnew)

theorem size_setSize (e : Entry) (newSize : ℕ) (now : Datestamp) :
    (e.setSize newSize now).size = e.size := by
  simp [Entry.size, Entry.setSize]

theorem modify_withEntry {d : DirBlock} {i : ℕ} {e : Entry} (he : d.entries[i]? = some e)
    (f : Entry → Entry) : { d with entries := d.entries.modify i f } = d.withEntry i (f e) := by
  have hmod : d.entries.modify i f = d.entries.modify i fun _ => f e := by
    apply List.ext_getElem?
    intro j
    rw [List.getElem?_modify, List.getElem?_modify]
    by_cases hij : i = j
    · subst hij
      rw [he]
      simp
    · simp [hij]
  rw [DirBlock.withEntry, hmod]

theorem fits_withEntry {d : DirBlock} {i : ℕ} {e e₀ : Entry} (hfit : d.Fits)
    (he : d.entries[i]? = some e₀) (hsize : e.size = e₀.size) : (d.withEntry i e).Fits := by
  obtain ⟨hi, -⟩ := List.getElem?_eq_some_iff.mp he
  unfold DirBlock.Fits at hfit ⊢
  rw [DirBlock.withEntry, dirBlock_size, List.modify_eq_take_cons_drop hi, entriesSize_append,
    entriesSize_cons]
  have hd := size_split he
  omega

/-- The dates of an entry whose size fields are written. -/
theorem stampEntry (h : Rep g w S) {b ds i newSize : ℕ} {d : DirBlock} {e₀ e : Entry}
    (hfit : d.Fits) (he : d.entries[i]? = some e₀)
    (heq : e = { e₀ with
      fsize := UInt32.ofNat newSize
      fsizex := e₀.fsizex.map fun _ => UInt16.ofNat (newSize / U32) }) :
    Sim (Rep g) Eq
      (do
        let now ← Writer.currentAmigaDatestamp
        let data ← putU16 (dirImage ds (d.withEntry i e))
          (20 + entriesSize (d.entries.take i) + 10) now.day
        let data ← putU16 data (20 + entriesSize (d.entries.take i) + 12) now.minute
        let data ← putU16 data (20 + entriesSize (d.entries.take i) + 14) now.tick
        let ds ← Writer.nextDatestamp
        let data ← putU32 data 4 ds
        Writer.writeReserved b data : WriterM Unit)
      (do
        let now ← Store.currentAmigaDatestamp
        let _ ← Store.nextDatestamp
        Store.writeDir b { d with entries := d.entries.modify i (Entry.setSize newSize now) } :
          StoreM Unit) w S := by
  have hsize : e.size = e₀.size := by
    rw [heq]
    unfold Entry.size
    simp
  have hname := Entry.name_lt_size e
  refine h.currentAmigaDatestamp.bind ?_
  rintro now _ w S rfl h
  have hlast : e₀.setSize newSize now =
      { e with
        day := UInt16.ofNat now.day
        minute := UInt16.ofNat now.minute
        tick := UInt16.ofNat now.tick } := by
    rw [heq]
    rfl
  have hday := putField ds e { e with day := UInt16.ofNat now.day } he hsize rfl
    (by rw [length_enc16]; omega) (e.splice_day now.day)
  have hminute := putField ds { e with day := UInt16.ofNat now.day }
    { e with day := UInt16.ofNat now.day, minute := UInt16.ofNat now.minute } he hsize rfl
    (by rw [length_enc16]; exact (by omega : 12 + 2 ≤ e.size)) (Entry.splice_minute _ now.minute)
  have htick := putField ds
    { e with day := UInt16.ofNat now.day, minute := UInt16.ofNat now.minute }
    { e with
      day := UInt16.ofNat now.day
      minute := UInt16.ofNat now.minute
      tick := UInt16.ofNat now.tick } he hsize rfl
    (by rw [length_enc16]; exact (by omega : 14 + 2 ≤ e.size)) (Entry.splice_tick _ now.tick)
  rw [← hlast] at htick
  unfold putU16
  refine sim_lift_ok hday (sim_lift_ok hminute (sim_lift_ok htick ?_))
  refine h.nextDatestamp.bind ?_
  rintro ds' _ w S rfl h
  rw [modify_withEntry he]
  refine sim_lift_ok (stamp_dirImage _ _ _) (h.writeDir ?_)
  exact fits_withEntry hfit he (size_setSize e₀ newSize now)

theorem updateDirEntrySize (h : Rep g w S) (dirAnode : ℕ) (name : Name) (newSize : ℕ) :
    Sim (Rep g) Eq (Writer.updateDirEntrySize dirAnode name newSize)
      (Store.updateDirEntrySize dirAnode name newSize) w S := by
  refine (h.findDirEntry dirAnode name).bind ?_
  rintro _ ⟨b, d, i⟩ w S ⟨ds, rfl, hfit, e, he⟩ h
  dsimp only at hfit he ⊢
  have hentry := @entryAt_dirImage ds d i e he
  have hle := hentry.le_length
  have hname := Entry.name_lt_size e
  have heven : (20 + entriesSize (d.entries.take i)) % 2 = 0 := by
    have h := even_entriesSize (d.entries.take i)
    omega
  refine sim_lift_ok (readU8_ok (by omega)) (sim_lift_ok (readU8_ok (by omega)) ?_)
  rw [hentry.esize, hentry.nlen]
  have hfsize := putField ds e { e with fsize := UInt32.ofNat newSize } he rfl rfl
    (by rw [length_enc32]; omega) (e.splice_fsize newSize)
  rw [withEntry_self he] at hfsize
  refine sim_lift_ok hfsize ?_
  have hfield := (entryAt_withEntry ds { e with fsize := UInt32.ofNat newSize } he
    rfl).fsizexPos heven
  refine sim_lift_ok hfield ?_
  rcases Option.eq_none_or_eq_some e.fsizex with hx | ⟨x, hx⟩
  · rw [if_neg (by simp [hx])]
    refine h.stampEntry hfit he ?_
    cases e
    cases hx
    rfl
  · rw [if_pos (by simp [hx])]
    have hsize : ({ e with
        fsize := UInt32.ofNat newSize
        fsizex := some (UInt16.ofNat (newSize / U32)) } : Entry).size = e.size := by
      unfold Entry.size
      simp [hx]
    have hfsizex := putField ds { e with fsize := UInt32.ofNat newSize }
      { e with
        fsize := UInt32.ofNat newSize
        fsizex := some (UInt16.ofNat (newSize / U32)) } he rfl hsize
      (Entry.fieldPos_le { e with fsize := UInt32.ofNat newSize } hx)
      (Entry.splice_fsizex { e with fsize := UInt32.ofNat newSize } hx (newSize / U32))
    refine sim_lift_ok hfsizex ?_
    refine h.stampEntry hfit he ?_
    rw [hx]
    rfl

end Rep

end Pfs3
