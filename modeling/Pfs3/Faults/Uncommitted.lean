import Pfs3.Faults.Writes
import Pfs3.Store.Confined
import Pfs3.Tree.Reading

/-!
# Before the commit

A call prepares its change in memory and on free data blocks, and then commits it.  If it fails in
the preparation, or if the power does, whoever opens the device reads the file system from before.
-/

namespace Pfs3

open ByteList Stop Store

/-! ## Preparations -/

namespace Writer

/-- A change that a call commits at once. -/
inductive Edit
  | createFile (parentAnode : ℕ) (name : Name) (data : Bytes)
  | createDir (parentAnode : ℕ) (name : Name)
  | createSoftlink (parentAnode : ℕ) (name target : Name)
  | createHardlink (parentAnode : ℕ) (name : Name) (targetAnode : ℕ)
  | delete (parentAnode : ℕ) (name : Name)
  | setProtection (dirAnode : ℕ) (name : Name) (protection : UInt8)
  | move (srcParent : ℕ) (srcName : Name) (entry : DirEntry) (dstParent : ℕ) (dstName : Name)

namespace Edit

/-- What the call does before `update_rootblock`. -/
def prepare : Edit → WriterM Unit
  | createFile parentAnode name data => writeFileInNoCommit parentAnode name data
  | createDir parentAnode name => do
      let dirBlk ← allocReservedBlock
      let anodenr ← allocAnode 1 dirBlk 0
      let w ← get
      let dirData ← putU16 (List.replicate w.resblocksize 0) 0x00 DBLKID
      let ds ← nextDatestamp
      let dirData ← putU32 dirData 0x04 ds
      let dirData ← putU32 dirData 0x0C anodenr
      let dirData ← putU32 dirData 0x10 parentAnode
      writeReserved dirBlk dirData
      addDirEntry parentAnode name ST_USERDIR anodenr 0 0
  | createSoftlink parentAnode name target => do
      let data := asBytes target
      let anodenr ← storeData data
      addDirEntry parentAnode name ST_SOFTLINK anodenr data.length 0
  | createHardlink parentAnode name targetAnode =>
      addDirEntry parentAnode name ST_LINKFILE targetAnode 0 0
  | delete parentAnode name => do
      let entries ← onVol (Volume.listDirByAnode parentAnode)
      match entries.find? fun e => nameEqCi e.name name with
      | none => fail (.notFound (String.ofList name))
      | some target =>
          if target.isDir then
            let sub ← onVol (Volume.listDirByAnode target.anode)
            if sub ≠ [] then fail .notEmpty
            else
              freeAnodeChainReserved target.anode
              clearAnodeChain target.anode
          else
            let moved ← moveToDeldir target
            if moved then pure ()
            else
              freeDataBlocks target.anode
              clearAnodeChain target.anode
          removeDirEntry parentAnode name
  | setProtection dirAnode name protection => do
      let (blk, data, pos) ← findDirEntry dirAnode name
      let data ← putBytes data (pos + 16) [protection]
      let ds ← nextDatestamp
      let data ← putU32 data 4 ds
      writeReserved blk data
  | move srcParent srcName entry dstParent dstName => do
      addDirEntry dstParent dstName entry.entryType entry.anode entry.fileSize entry.protection
      removeDirEntry srcParent srcName

/-- The call. -/
def run (e : Edit) : WriterM Unit := do
  e.prepare
  updateRootblock

end Edit

/-! ### The calls are made of them -/

theorem createDirIn_eq (parentAnode : ℕ) (name : Name) :
    createDirIn parentAnode name = (Edit.createDir parentAnode name).run := by
  unfold createDirIn Edit.run Edit.prepare
  simp only [bind_assoc]

theorem createSoftlinkIn_eq (parentAnode : ℕ) (name target : Name) :
    createSoftlinkIn parentAnode name target =
      (Edit.createSoftlink parentAnode name target).run := by
  unfold createSoftlinkIn Edit.run Edit.prepare
  simp only [bind_assoc]

theorem createHardlink_eq (path : Name) (targetAnode : ℕ) : createHardlink path targetAnode = (do
    let (parentAnode, name) ← splitPath path
    (Edit.createHardlink parentAnode name targetAnode).run) := rfl

theorem deleteIn_eq (parentAnode : ℕ) (name : Name) :
    deleteIn parentAnode name = (Edit.delete parentAnode name).run := by
  unfold deleteIn Edit.run Edit.prepare
  rw [bind_assoc]
  refine congrArg _ (funext fun entries => ?_)
  cases entries.find? fun e => nameEqCi e.name name with
  | none => rfl
  | some target =>
      dsimp only
      split
      · rw [bind_assoc]
        refine congrArg _ (funext fun sub => ?_)
        split
        · simp only [bind_assoc]
        · simp only [bind_assoc]
      · rw [bind_assoc]
        refine congrArg _ (funext fun moved => ?_)
        split
        · rfl
        · simp only [bind_assoc]

theorem updateDirEntryProtection_eq (dirAnode : ℕ) (name : Name) (protection : UInt8) :
    updateDirEntryProtection dirAnode name protection =
      (Edit.setProtection dirAnode name protection).run := by
  unfold updateDirEntryProtection Edit.run Edit.prepare
  simp only [bind_assoc]

/-- A renaming deletes an object that has the new name, and moves the entry. -/
theorem renameIn_eq (srcParent : ℕ) (srcName : Name) (dstParent : ℕ) (dstName : Name) :
    renameIn srcParent srcName dstParent dstName = (do
      let entries ← onVol (Volume.listDirByAnode srcParent)
      match entries.find? fun e => nameEqCi e.name srcName with
      | none => fail (.notFound (String.ofList srcName))
      | some entry =>
          let dst ← tryOk (onVol (Volume.listDirByAnode dstParent))
          if (dst.getD []).any fun e => nameEqCi e.name dstName then
            (Edit.delete dstParent dstName).run
          (Edit.move srcParent srcName entry dstParent dstName).run) := by
  unfold renameIn
  refine congrArg _ (funext fun entries => ?_)
  cases entries.find? fun e => nameEqCi e.name srcName with
  | none => rfl
  | some entry =>
      simp only [deleteIn_eq, Edit.run, Edit.prepare, bind_assoc]

/-- A file that is not there is created. -/
theorem writeFileIn_eq {parentAnode : ℕ} {name : Name} (data : Bytes) {w w' : Writer}
    (h : tryOk (findDirEntry parentAnode name) w = .ok none w') :
    writeFileIn parentAnode name data w = (Edit.createFile parentAnode name data).run w' := by
  unfold writeFileIn
  dsimp only
  rw [bind_of_ok h]
  rfl

/-! ### Only free blocks are written -/

section Puts

variable {α β : Type} {P : ℕ → Prop} {m : WriterM α} {w : Writer}

/-- However it ends, the computation has written some sectors that satisfy `P`, in an order. -/
def Puts (P : ℕ → Prop) (m : WriterM α) (w : Writer) : Prop :=
  ∃ ws : List (ℕ × Sector), (leaves (m w)).vol.dev = w.vol.dev.puts ws ∧ ∀ p ∈ ws, P p.1

theorem Quiet.leaves (h : Quiet m) (w : Writer) : (leaves (m w)).vol.dev = w.vol.dev := by
  have hm := h w
  rcases hrun : m w with ⟨a, w'⟩ | ⟨f, w'⟩ <;> rw [hrun] at hm <;> exact hm

theorem Quiet.puts (h : Quiet m) (w : Writer) : Puts P m w :=
  ⟨[], h.leaves w, fun _ hp => absurd hp List.not_mem_nil⟩

/-- Nothing is written after the sectors. -/
theorem Puts.bind {k : α → WriterM β} (h : Puts P m w) (hk : ∀ a, Quiet (k a)) :
    Puts P (m >>= k) w := by
  obtain ⟨ws, hws, hP⟩ := h
  refine ⟨ws, ?_, hP⟩
  rcases hrun : m w with ⟨a, w'⟩ | ⟨f, w'⟩ <;> rw [hrun] at hws
  · rw [bind_of_ok hrun]
    exact ((hk a).leaves w').trans hws
  · rw [bind_of_error hrun]
    exact hws

/-- A free block of the data area. -/
def FreeIn (S : Store) (b : ℕ) : Prop :=
  ∃ r, b = S.geo.dataStart + r ∧ r < S.geo.dataBlocks ∧ S.live.free r = true

end Puts

end Writer

/-! ## What a reader sees -/

theorem Device.sectors_puts {b : ℕ} (ws : List (ℕ × Sector)) : ∀ {d : Device},
    (∀ p ∈ ws, p.1 ≠ b) → (d.puts ws).sectors b = d.sectors b := by
  induction ws with
  | nil => exact fun _ => rfl
  | cons p ws ih =>
      intro d h
      rw [Device.puts_cons, ih fun q hq => h q (List.mem_cons_of_mem _ hq)]
      exact Function.update_of_ne (h p List.mem_cons_self).symm _ _

section Unseen

variable {g : Geometry} {w : Writer} {S : Store} {T : Owners} {fs : FileSystem}
  {ws : List (ℕ × Sector)}

/-- The blocks of the files are as before. -/
theorem Store.Shows.puts (hs : S.Shows T fs) (hw : Rep g w S) (h : S.Settled T)
    (hfree : ∀ p ∈ ws, Writer.FreeIn S p.1) :
    ({ S with data := (w.vol.dev.puts ws).sectors } : Store).Shows T fs := by
  refine ⟨hs.lists, fun {p e} he hfile => ?_⟩
  rw [hs.bytes he hfile]
  refine (contentsOf_congr rfl fun n hn b hb => ?_).symm
  obtain ⟨m, hm, hkind⟩ := h.node he
  obtain rfl : n = m := Option.some.inj (hn.symm.trans hm)
  obtain ⟨hlo, hhi⟩ := h.owned.dataBlock hn (hkind.trans hfile) hb
  rw [← hw.vol.data b hlo hhi]
  refine Device.sectors_puts ws fun p hp heq => ?_
  obtain ⟨r, hr, -, hr'⟩ := hfree p hp
  rcases h.owned.taken hn hb with hdyn | ⟨-, -, htaken⟩
  · exact absurd (Taken.lt hdyn.1) (by omega)
  · rw [← heq, hr, Nat.add_sub_cancel_left, hr'] at htaken
    cases htaken

end Unseen

end Pfs3
