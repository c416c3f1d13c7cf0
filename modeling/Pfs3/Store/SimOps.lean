import Pfs3.Store.SimCommit

/-!
# Simulation: the operations

Every file and directory operation of the writer does what the operation of the structured
store says.
-/

namespace Pfs3

open ByteList BlockCache Stop

namespace Rep

variable {g : Geometry} {w : Writer} {S : Store}

/-- The related values of an optional result. -/
def OptRel {α β : Type} (Q : α → β → Prop) : Option α → Option β → Prop
  | none, none => True
  | some a, some b => Q a b
  | _, _ => False

theorem tryOk {α β : Type} {Q : α → β → Prop} {m : WriterM α} {m' : StoreM β}
    (h : Sim (Rep g) Q m m' w S) :
    Sim (Rep g) (OptRel Q) (Pfs3.tryOk m) (Store.tryOk m') w S := by
  rcases hS : m' S with ⟨b, S'⟩ | ⟨e | _, S'⟩
  · obtain ⟨a, w', hw, hQ, hR⟩ := h.ok hS
    exact sim_of_ok (a := some a) (b := some b) (by simp only [Pfs3.tryOk, hw])
      (by simp only [Store.tryOk, hS]) hQ hR
  · obtain ⟨w', hw, hR⟩ := h.raise hS
    cases e with
    | err e =>
        exact sim_of_ok (a := none) (b := none) (by simp only [Pfs3.tryOk, hw])
          (by simp only [Store.tryOk, hS]) trivial hR
    | panic =>
        exact sim_of_raise (e := .panic) (by simp only [Pfs3.tryOk, hw])
          (by simp only [Store.tryOk, hS]) hR
  · have hstuck : Store.tryOk m' S = .error .stuck S' := by simp only [Store.tryOk, hS]
    exact sim_of_stuck hstuck

/-! ## Paths -/

theorem descend (parts : List Name) : ∀ (parent : ℕ) {w : Writer} {S : Store}, Rep g w S →
    Sim (Rep g) Eq (Writer.descend parent parts) (Store.descend parent parts) w S := by
  induction parts with
  | nil => intro parent w S h; exact sim_pure rfl h
  | cons part rest ih =>
      intro parent w S h
      unfold Writer.descend Store.descend
      refine (h.listDirByAnode parent).bind ?_
      rintro _ es w S rfl h
      rw [List.find?_map]
      have hdir : ((fun e : DirEntry => nameEqCi e.name part && e.isDir) ∘ Entry.toDirEntry) =
          fun e => nameEqCi e.text part && e.isDir := rfl
      rw [hdir]
      cases es.find? fun e => nameEqCi e.text part && e.isDir with
      | none => exact sim_throw h
      | some e => exact ih e.anode.toNat h

theorem splitPath (h : Rep g w S) (path : Name) :
    Sim (Rep g) Eq (Writer.splitPath path) (Store.splitPath path) w S := by
  unfold Writer.splitPath Store.splitPath
  dsimp only
  cases (pathParts path).getLast? with
  | none => exact sim_throw h
  | some filename =>
      refine (descend _ _ h).bind ?_
      rintro parent _ w S rfl h
      exact sim_pure rfl h

/-! ## Files -/

theorem storeData (h : Rep g w S) (data : Bytes) :
    Sim (Rep g) Eq (Writer.storeData data) (Store.storeData data) w S := by
  refine (h.allocDataBlocks _).bind ?_
  rintro blocks _ w S rfl h
  refine (writeDataBlocks blocks data h).bind ?_
  rintro _ _ w S - h
  exact sim_left onDev_flush (h.createAnodeChain blocks)

theorem writeFileInNoCommit (h : Rep g w S) (parentAnode : ℕ) (name : Name) (data : Bytes) :
    Sim (Rep g) Eq (Writer.writeFileInNoCommit parentAnode name data)
      (Store.writeFileInNoCommit parentAnode name data) w S := by
  refine (h.storeData data).bind ?_
  rintro anodenr _ w S rfl h
  exact h.addDirEntry _ _ _ _ _ _

theorem overwriteFileIn (h : Rep g w S) (parentAnode : ℕ) (name : Name) (fileAnode : ℕ)
    (data : Bytes) :
    Sim (Rep g) Eq (Writer.overwriteFileIn parentAnode name fileAnode data)
      (Store.overwriteFileIn parentAnode name fileAnode data) w S := by
  refine (h.getChain fileAnode).bind ?_
  rintro oldChain _ w S rfl h
  dsimp only
  split
  · exact sim_throw h
  · refine (writeDataBlocks _ data h).bind ?_
    rintro _ _ w S - h
    refine sim_left onDev_flush ?_
    have hlast : ∀ {w : Writer} {S : Store}, Rep g w S → Sim (Rep g) Eq
        (do Writer.updateDirEntrySize parentAnode name data.length; Writer.updateRootblock)
        (do Store.updateDirEntrySize parentAnode name data.length; Store.updateRootblock) w S := by
      intro w S h
      refine (h.updateDirEntrySize parentAnode name data.length).bind ?_
      rintro _ _ w S - h
      exact h.updateRootblock
    split
    · refine (h.truncateAnodeChain _ _).bind ?_
      rintro _ _ w S - h
      exact hlast h
    · refine (h.allocDataBlocks _).bind ?_
      rintro newBlocks _ w S rfl h
      refine (writeDataBlocks _ _ h).bind ?_
      rintro _ _ w S - h
      refine sim_left onDev_flush ((h.createAnodeChain newBlocks).bind ?_)
      rintro newHead _ w S rfl h
      refine (h.appendToAnodeChain _ _).bind ?_
      rintro _ _ w S - h
      exact hlast h

theorem createFile (h : Rep g w S) (parentAnode : ℕ) (name : Name) (data : Bytes) :
    Sim (Rep g) Eq (do Writer.writeFileInNoCommit parentAnode name data; Writer.updateRootblock)
      (do Store.writeFileInNoCommit parentAnode name data; Store.updateRootblock) w S := by
  refine (h.writeFileInNoCommit _ _ _).bind ?_
  rintro _ _ w S - h
  exact h.updateRootblock

theorem writeFileIn (h : Rep g w S) (parentAnode : ℕ) (name : Name) (data : Bytes) :
    Sim (Rep g) Eq (Writer.writeFileIn parentAnode name data)
      (Store.writeFileIn parentAnode name data) w S := by
  refine (tryOk (h.findDirEntry parentAnode name)).bind ?_
  rintro (_ | p) (_ | q) w S hfound h
  · exact h.createFile _ _ _
  · exact hfound.elim
  · exact hfound.elim
  · obtain ⟨b, d, i⟩ := q
    obtain ⟨ds, rfl, hfit, e, he⟩ := hfound
    dsimp only at hfit he ⊢
    rw [he]
    have hentry := @entryAt_dirImage ds d i e he
    have hle := hentry.le_length
    have hname := Entry.name_lt_size e
    refine sim_lift_ok (readU8_ok (by omega)) ?_
    rw [hentry.type]
    dsimp only
    by_cases hfile : e.entryType = ST_FILE ∨ e.entryType = ST_ROLLOVERFILE
    · rw [if_pos hfile]
      have hfile' := hfile
      unfold Entry.entryType at hfile'
      rw [if_pos hfile']
      refine sim_lift_ok (readU32_ok (by omega)) ?_
      rw [hentry.anode]
      exact h.overwriteFileIn _ _ _ _
    · rw [if_neg hfile]
      have hfile' := hfile
      unfold Entry.entryType at hfile'
      rw [if_neg hfile']
      exact h.createFile _ _ _

theorem createDirIn (h : Rep g w S) (parentAnode : ℕ) (name : Name) :
    Sim (Rep g) Eq (Writer.createDirIn parentAnode name) (Store.createDirIn parentAnode name)
      w S := by
  refine h.allocReservedBlock.bind ?_
  rintro dirBlk _ w S rfl h
  refine (h.allocAnode 1 dirBlk 0).bind ?_
  rintro anodenr _ w S rfl h
  refine h.newDir fun w S h => ?_
  refine (h.addDirEntry _ _ _ _ _ _).bind ?_
  rintro _ _ w S - h
  exact h.updateRootblock

theorem createSoftlinkIn (h : Rep g w S) (parentAnode : ℕ) (name target : Name) :
    Sim (Rep g) Eq (Writer.createSoftlinkIn parentAnode name target)
      (Store.createSoftlinkIn parentAnode name target) w S := by
  refine (h.storeData _).bind ?_
  rintro anodenr _ w S rfl h
  refine (h.addDirEntry _ _ _ _ _ _).bind ?_
  rintro _ _ w S - h
  exact h.updateRootblock

theorem writeFile (h : Rep g w S) (path : Name) (data : Bytes) :
    Sim (Rep g) Eq (Writer.writeFile path data) (Store.writeFile path data) w S := by
  refine (h.splitPath path).bind ?_
  rintro _ ⟨parent, name⟩ w S rfl h
  exact h.writeFileIn parent name data

theorem createDir (h : Rep g w S) (path : Name) :
    Sim (Rep g) Eq (Writer.createDir path) (Store.createDir path) w S := by
  refine (h.splitPath path).bind ?_
  rintro _ ⟨parent, name⟩ w S rfl h
  exact h.createDirIn parent name

theorem createSoftlink (h : Rep g w S) (path target : Name) :
    Sim (Rep g) Eq (Writer.createSoftlink path target) (Store.createSoftlink path target) w S := by
  refine (h.splitPath path).bind ?_
  rintro _ ⟨parent, name⟩ w S rfl h
  exact h.createSoftlinkIn parent name target

theorem createHardlink (h : Rep g w S) (path : Name) (targetAnode : ℕ) :
    Sim (Rep g) Eq (Writer.createHardlink path targetAnode)
      (Store.createHardlink path targetAnode) w S := by
  refine (h.splitPath path).bind ?_
  rintro _ ⟨parent, name⟩ w S rfl h
  refine (h.addDirEntry _ _ _ _ _ _).bind ?_
  rintro _ _ w S - h
  exact h.updateRootblock

/-! ## Deletion -/

/-- There is no deldir. -/
theorem moveToDeldir_run (h : Rep g w S) (e : DirEntry) :
    Writer.moveToDeldir e w = .ok false w := by
  unfold Writer.moveToDeldir
  rw [bind_of_ok (rfl : (get : WriterM Writer) w = .ok w w), if_pos h.vol.rb.deldir]
  rfl

theorem deleteIn (h : Rep g w S) (parentAnode : ℕ) (name : Name) :
    Sim (Rep g) Eq (Writer.deleteIn parentAnode name) (Store.deleteIn parentAnode name) w S := by
  refine (h.listDirByAnode parentAnode).bind ?_
  rintro _ es w S rfl h
  have hlast : ∀ {w : Writer} {S : Store}, Rep g w S → Sim (Rep g) Eq
      (do Writer.removeDirEntry parentAnode name; Writer.updateRootblock)
      (do Store.removeDirEntry parentAnode name; Store.updateRootblock) w S := by
    intro w S h
    refine (h.removeDirEntry parentAnode name).bind ?_
    rintro _ _ w S - h
    exact h.updateRootblock
  rw [List.find?_map]
  have hname : ((fun e : DirEntry => nameEqCi e.name name) ∘ Entry.toDirEntry) =
      fun e => nameEqCi e.text name := rfl
  rw [hname]
  cases es.find? fun e => nameEqCi e.text name with
  | none => exact sim_throw h
  | some target =>
      have hdir : target.toDirEntry.isDir = target.isDir := rfl
      dsimp only [Option.map_some]
      rw [hdir]
      split
      · refine (h.listDirByAnode _).bind ?_
        rintro _ sub w S rfl h
        cases sub with
        | nil =>
            refine (h.freeAnodeChainReserved _).bind ?_
            rintro _ _ w S - h
            refine (h.clearAnodeChain _).bind ?_
            rintro _ _ w S - h
            exact hlast h
        | cons e sub => exact sim_throw h
      · refine sim_left (h.moveToDeldir_run _) ?_
        refine (h.freeDataBlocks _).bind ?_
        rintro _ _ w S - h
        refine (h.clearAnodeChain _).bind ?_
        rintro _ _ w S - h
        exact hlast h

theorem delete (h : Rep g w S) (path : Name) :
    Sim (Rep g) Eq (Writer.delete path) (Store.delete path) w S := by
  refine (h.splitPath path).bind ?_
  rintro _ ⟨parent, name⟩ w S rfl h
  exact h.deleteIn parent name

theorem updateDirEntryProtection (h : Rep g w S) (dirAnode : ℕ) (name : Name) (protection : UInt8) :
    Sim (Rep g) Eq (Writer.updateDirEntryProtection dirAnode name protection)
      (Store.updateDirEntryProtection dirAnode name protection) w S := by
  refine (h.findDirEntry dirAnode name).bind ?_
  rintro _ ⟨b, d, i⟩ w S ⟨ds, rfl, hfit, e, he⟩ h
  dsimp only at hfit he ⊢
  have hname := Entry.name_lt_size e
  have hprot := putField ds e { e with protection } he rfl rfl (by simp; omega)
    (e.splice_protection protection)
  rw [withEntry_self he] at hprot
  refine sim_lift_ok hprot (h.nextDatestamp.bind ?_)
  rintro ds' _ w S rfl h
  rw [modify_withEntry he]
  have hfits : (d.withEntry i (e.setProtection protection)).Fits := fits_withEntry hfit he rfl
  refine sim_lift_ok (stamp_dirImage _ _ _) ((h.writeDir hfits).bind ?_)
  rintro _ _ w S - h
  exact h.updateRootblock

theorem renameIn (h : Rep g w S) (srcParent : ℕ) (srcName : Name) (dstParent : ℕ)
    (dstName : Name) :
    Sim (Rep g) Eq (Writer.renameIn srcParent srcName dstParent dstName)
      (Store.renameIn srcParent srcName dstParent dstName) w S := by
  refine (h.listDirByAnode srcParent).bind ?_
  rintro _ es w S rfl h
  rw [List.find?_map]
  have hname : ∀ n, ((fun e : DirEntry => nameEqCi e.name n) ∘ Entry.toDirEntry) =
      fun e => nameEqCi e.text n := fun _ => rfl
  rw [hname]
  cases es.find? fun e => nameEqCi e.text srcName with
  | none => exact sim_throw h
  | some entry =>
      have hlast : ∀ {w : Writer} {S : Store}, Rep g w S → Sim (Rep g) Eq
          (do
            Writer.addDirEntry dstParent dstName entry.entryType entry.anode.toNat entry.fileSize
              entry.protection.toNat
            Writer.removeDirEntry srcParent srcName
            Writer.updateRootblock)
          (do
            Store.addDirEntry dstParent dstName entry.entryType entry.anode.toNat entry.fileSize
              entry.protection.toNat
            Store.removeDirEntry srcParent srcName
            Store.updateRootblock) w S := by
        intro w S h
        refine (h.addDirEntry _ _ _ _ _ _).bind ?_
        rintro _ _ w S - h
        refine (h.removeDirEntry _ _).bind ?_
        rintro _ _ w S - h
        exact h.updateRootblock
      refine (tryOk (h.listDirByAnode dstParent)).bind ?_
      rintro dst dst' w S hdst h
      have hany : ((dst.getD []).any fun e => nameEqCi e.name dstName) =
          ((dst'.getD []).any fun e => nameEqCi e.text dstName) := by
        rcases dst with _ | dst <;> rcases dst' with _ | dst'
        · rfl
        · exact hdst.elim
        · exact hdst.elim
        · have hmap : dst = dst'.map Entry.toDirEntry := hdst
          rw [hmap]
          simp only [Option.getD_some, List.any_map, hname]
      rw [hany]
      split
      · refine (h.deleteIn _ _).bind ?_
        rintro _ _ w S - h
        exact hlast h
      · exact hlast h

theorem undelete (h : Rep g w S) (deldirIdx : ℕ) (destPath : Name) :
    Sim (Rep g) Eq (Writer.undelete deldirIdx destPath) (Store.undelete deldirIdx destPath) w S := by
  obtain ⟨x, hx, hzero⟩ := h.vol.ext
  have hblocks : Writer.deldirblocks w = [] := by
    unfold Writer.deldirblocks
    rw [hx]
    exact List.filter_eq_nil_iff.mpr fun b hb => by simpa using hzero b hb
  have hper : deldirEntriesPerBlock w.vol.rootblock.reservedBlksize = 31 := by
    rw [h.vol.rb.rbs]
    rfl
  unfold Writer.undelete
  refine sim_get_left ?_
  rw [if_neg (by rw [hx]; exact Option.some_ne_none x)]
  dsimp only
  rw [hper, if_neg (by omega), hblocks]
  exact sim_throw h

end Rep

end Pfs3
