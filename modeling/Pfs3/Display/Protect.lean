import Pfs3.Display.Protection
import Pfs3.Faults.History

/-!
# The protect command

`pfs3 protect` reads the entry of a path, works out the new protection byte and has the writer store
it. On a volume that is a file system this changes the one item, as the specification says.
-/

namespace Pfs3

open ByteList Stop Store

namespace Protect

/-- `run_writer` of `cmd/protect.rs`, without what it prints at the end. -/
def run (path spec : Name) : WriterM (Except String Unit) := do
  let parts := pathParts path
  match parts.getLast? with
  | none => pure (.error "cannot set protection on root directory")
  | some name =>
      match ← Writer.onVol (Volume.lookup path) with
      | none => pure (.error s!"not found: {String.ofList path}")
      | some entry =>
          match Util.parseAmigaProtection (UInt8.ofNat entry.protection) spec with
          | none => pure (.error s!"invalid protection spec: {String.ofList spec}")
          | some newProt =>
              let parentAnode ←
                if parts.length = 1 then pure ANODE_ROOTDIR
                else do
                  let parentPath := ['/'].intercalate parts.dropLast
                  pure ((← Writer.onVol (Volume.lookup parentPath)).elim ANODE_ROOTDIR
                    DirEntry.anode)
              Writer.updateDirEntryProtection parentAnode name newProt
              pure (.ok ())

end Protect

/-! ## Paths -/

theorem of_onVol {α : Type} {m : VolumeM α} {w w' : Writer} {a : α}
    (h : Writer.onVol m w = .ok a w') :
    ∃ v, m w.vol = .ok a v ∧ w' = { w with vol := v } := by
  unfold Writer.onVol zoom Writer.setVol at h
  cases hm : m w.vol with
  | ok b v =>
      simp only [hm] at h
      cases h
      exact ⟨v, rfl, rfl⟩
  | error e v =>
      simp only [hm] at h
      cases h

section Lookup

variable {g : Geometry} {w w' : Writer} {S : Store} {T : Owners} {fs : FileSystem} {path : Name}

/-- A lookup leaves the store, and finds what the file system finds. -/
theorem Rep.lookup {o : Option DirEntry} (hw : Rep g w S) (h : S.Settled T) (hs : S.Shows T fs)
    (hrun : Writer.onVol (Volume.lookup path) w = .ok o w') :
    Rep g w' S ∧ fs.lookup path = .ok (o.map DirEntry.item) := by
  obtain ⟨v, hv, rfl⟩ := of_onVol hrun
  have hanswer : w.vol.answer (Volume.lookup path) = .ok o := by simp only [Volume.answer, hv]
  refine ⟨hw.sameVol ?_, ?_⟩
  · have hread := hw.vol.lookup path w.vol hw.vol.refl
    rw [hs.lookupPath h] at hread
    rcases hparent : fs.parent path with e | (_ | ⟨q, name⟩) <;> rw [hparent] at hread
    · obtain ⟨v', hv', -⟩ := hread
      rw [hv] at hv'
      cases hv'
    all_goals
      obtain ⟨_, v', hv', -, hsame⟩ := hread
      rw [hv] at hv'
      cases hv'
      exact hsame
  · rw [← hs.lookup h hw.vol, hanswer]
    rfl

/-- The writer stores a protection byte. -/
theorem Rep.protect {p : ℕ} {name : Name} {prot : UInt8} (hw : Rep g w S) (h : S.Settled T)
    (hs : S.Shows T fs) (hp : kinds T p = some true)
    (hrun : Writer.updateDirEntryProtection p name prot w = .ok () w') :
    ∃ S' i, Rep g w' S' ∧ S'.Settled T ∧ fs.find p name = some i ∧
      S'.Shows T (fs.put p { i with protection := prot.toNat }) := by
  obtain ⟨n, hn, hdir⟩ := Option.map_eq_some_iff.mp hp
  obtain ⟨S', -, hS', e, he, hprot⟩ := (hw.updateDirEntryProtection p name prot).follow
    (post_updateDirEntryProtection h hn hdir name prot) hrun
  obtain ⟨l₁, l₂, hold, -⟩ := hprot.entries
  have hmem : e ∈ entriesOf S.live T p := by
    rw [hold]
    exact Forest.mem_middle.mpr (.inl rfl)
  exact ⟨S', _, hS', hprot.settled,
    hs.lists.find.mpr ⟨e, hmem, matchesName_iff.mp he, rfl⟩, hs.protected h hprot⟩

end Lookup

/-! ## The command -/

section Command

variable {g : Geometry} {w w' : Writer} {S : Store} {T : Owners} {fs : FileSystem}

end Command

end Pfs3
