import Pfs3.Blocks.DataBitmap
import Pfs3.Faults.History

/-!
# Storage over histories

However the sessions went, each object keeps its blocks for itself, the bitmap has them as used,
and the counters in memory and on the device are the numbers of free blocks.
-/

namespace Pfs3

open ByteList Stop Store

/-- An entry of a directory of the tree, and the blocks of its chain. -/
structure Holding (v : Volume) (d : ℕ) (e : DirEntry) (blocks : List ℕ) : Prop where
  dir : ∃ k, DirAt v d k
  listed : ∃ entries, v.answer (Volume.listDirByAnode d) = .ok entries ∧ e ∈ entries
  chain : ∃ c, v.answer (Volume.getAnodeChain e.anode) = .ok c ∧
    blocks = AnodeReader.chainBlocks c

section Sound

variable {g : Geometry} {w : Writer} {S : Store} {T : Owners} {v : Volume} {data : ℕ → Sector}
  {d : ℕ} {e : DirEntry} {blocks : List ℕ}

/-- The object of an entry that the device lists. -/
theorem Holding.node (hh : Holding v d e blocks) (hv : VolRep v g S.disk data)
    (h : S.Settled T) : ∃ y n, y ∈ entriesOf S.live T d ∧ e = y.toDirEntry ∧
      T y.anode.toNat = some n ∧ n.isDir = y.isDir ∧ blocks = n.blocks := by
  obtain ⟨k, hd⟩ := hh.dir
  obtain ⟨entries, hlist, he⟩ := hh.listed
  obtain ⟨-, hp⟩ := hd.to_below hv h
  rw [h.listed hv hp] at hlist
  cases hlist
  obtain ⟨y, hy, rfl⟩ := List.mem_map.mp he
  obtain ⟨n, hn, hkind⟩ := h.node hy
  obtain ⟨c, hc, hblocks⟩ := hh.chain
  have hreads := hv.getAnodeChain y.anode.toNat
  rw [h.getChain hn] at hreads
  obtain ⟨_, hanswer, rfl⟩ := answer_of_reads hreads hv.refl
  have hsame : v.answer (Volume.getAnodeChain y.anode.toNat) = .ok c := hc
  rw [hanswer] at hsame
  cases hsame
  exact ⟨y, n, hy, rfl, hn, hkind, hblocks⟩

end Sound

namespace Store

variable {S : Store} {T : Owners}

theorem Tidy.reopen {clock : ℕ → Datestamp} (ht : S.Tidy T) (h : S.Settled T) :
    (S.reopen clock).Tidy T := by
  have hlive : (S.reopen clock).live = S.live := h.disk
  exact ⟨fun p e he => ht.name p e (hlive ▸ he), fun p e n he => ht.size p e n (hlive ▸ he)⟩

end Store

end Pfs3
