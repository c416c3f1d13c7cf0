import Pfs3.Store.Fresh
import Pfs3.Store.Opened
import Pfs3.Tree.Calls

/-!
# The fresh tree

A fresh volume has one object, the root directory, without entries.
-/

namespace Pfs3

open ByteList Stop

/-- A path of one component names an entry of the root directory. -/
theorem Store.splitPath_single {S : Store} {p : ℕ} {name : Name}
    (h : Store.splitPath ['a'] S = .ok (p, name) S) : p = ANODE_ROOTDIR ∧ name = ['a'] := by
  have hrun : Store.splitPath ['a'] S = .ok (ANODE_ROOTDIR, ['a']) S := rfl
  rw [hrun] at h
  cases h
  exact ⟨rfl, rfl⟩

namespace Geometry

variable (g : Geometry)

/-- The root directory of a fresh volume. -/
def freshRootDir : Node := ⟨true, [⟨1, blockAt (g.base + 1), 0, ANODE_ROOTDIR⟩]⟩

/-- The objects of a fresh volume. -/
def freshOwners : Owners := fun h => if h = ANODE_ROOTDIR then some g.freshRootDir else none

theorem freshOwners_some {h : ℕ} {n : Node} (hn : g.freshOwners h = some n) :
    h = ANODE_ROOTDIR ∧ n = g.freshRootDir := by
  unfold freshOwners at hn
  split at hn
  · rename_i heq
    cases hn
    exact ⟨heq, rfl⟩
  · cases hn

theorem freshOwners_root : g.freshOwners ANODE_ROOTDIR = some g.freshRootDir := rfl

theorem freshRootDir_blocks : g.freshRootDir.blocks = [blockAt (g.base + 1)] := rfl

theorem freshMeta_getAnode : g.freshMeta.getAnode ANODE_ROOTDIR =
    .ok ⟨1, blockAt (g.base + 1), 0, ANODE_ROOTDIR⟩ := by
  have hbase := g.base_add_two_le
  have hlt := g.blockAt_lt (k := g.base + 1) (by omega)
  have hstart := g.dataStart_lt
  have hsize := g.disksize_lt
  have hidx : g.freshMeta.index (ANODE_ROOTDIR / 65536) ≠ 0 := by
    have h : g.freshMeta.index (ANODE_ROOTDIR / 65536) = blockAt g.base := rfl
    rw [h, blockAt]
    omega
  have hu : U32 = 4294967296 := rfl
  have hblk : blockAt (g.base + 1) < U32 := by omega
  have hslot : g.freshMeta.slot ANODE_ROOTDIR = Slot.ofNat 1 (blockAt (g.base + 1)) 0 := rfl
  rw [Meta.getAnode_of hidx (by decide), hslot, Store.anode_ofNat (by omega) hblk (by omega)]

/-- A fresh volume, opened. -/
def freshStore (data : ℕ → Sector) (clock : ℕ → Datestamp) : Store :=
  .opened g g.freshMeta g.freshRoot data clock

theorem freshIndex_ne {s : ℕ} (h : g.freshMeta.index s ≠ 0) :
    s = 0 ∧ g.freshMeta.index s = blockAt g.base := by
  have hs : s = 0 := by
    by_contra hne
    exact h (if_neg hne)
  subst hs
  exact ⟨rfl, rfl⟩

theorem filter_le_range (a n : ℕ) :
    ((List.range n).filter fun k => decide (a ≤ k)).length = n - a := by
  induction n with
  | zero => simp
  | succ n ih =>
      rw [List.range_succ, List.filter_append, List.length_append, ih]
      by_cases h : a ≤ n
      · have hn : [n].filter (fun k => decide (a ≤ k)) = [n] :=
          List.filter_eq_self.mpr fun k hk => by simpa [List.mem_singleton.mp hk] using h
        rw [hn, List.length_singleton]
        omega
      · have hn : [n].filter (fun k => decide (a ≤ k)) = [] :=
          List.filter_eq_nil_iff.mpr fun k hk => by simpa [List.mem_singleton.mp hk] using h
        rw [hn, List.length_nil]
        omega

theorem freshStore_sane (data : ℕ → Sector) (clock : ℕ → Datestamp) :
    (g.freshStore data clock).Sane where
  reserve k hk := by
    have hk' : (decide (g.base + 2 ≤ k) && decide (k < g.numreserved)) = true := hk
    rw [Bool.and_eq_true, decide_eq_true_eq, decide_eq_true_eq] at hk'
    refine ⟨by show g.base ≤ k; omega, hk'.2, fun s hs => ?_⟩
    have hs' : g.freshMeta.index s = blockAt k := hs
    by_cases h0 : g.freshMeta.index s = 0
    · rw [h0] at hs'
      simp only [blockAt] at hs'
      omega
    · rw [(g.freshIndex_ne h0).2] at hs'
      have := blockAt_inj hs'
      omega
  index s hs := by
    obtain ⟨rfl, hidx⟩ := g.freshIndex_ne hs
    have hbase := g.base_add_two_le
    have hidx' : (g.freshStore data clock).live.index 0 = blockAt g.base := hidx
    rw [hidx']
    refine ⟨by omega, ⟨g.base, le_refl _, by show g.base < g.numreserved; omega, rfl⟩, fun k hk => ?_⟩
    have hk' := blockAt_inj hk
    show (decide (g.base + 2 ≤ k) && _) = false
    rw [decide_eq_false (by omega), Bool.false_and]
  disk _ _ := rfl
  blocks := by
    have hall : (g.freshStore data clock).freeBlocks = List.range g.dataBlocks :=
      List.filter_eq_self.mpr fun r hr => decide_eq_true (List.mem_range.mp hr)
    rw [hall, List.length_range]
    rfl
  reserved := by
    have hfree : (g.freshStore data clock).freeReserved =
        (List.range g.numreserved).filter fun k => decide (g.base + 2 ≤ k) := by
      refine List.filter_congr fun k hk => ?_
      show (decide (g.base + 2 ≤ k) && decide (k < g.numreserved)) = _
      have hk' : k < g.numreserved := List.mem_range.mp hk
      rw [decide_eq_true hk', Bool.and_true]
    rw [hfree, filter_le_range]
    rfl
  bound r hr := of_decide_eq_true hr

/-- The root directory is empty. -/
theorem entriesOf_freshStore (data : ℕ → Sector) (clock : ℕ → Datestamp) (q : ℕ) :
    Store.entriesOf (g.freshStore data clock).live g.freshOwners q = [] := by
  have hdir : (g.freshStore data clock).live.dir (blockAt (g.base + 1)) =
      some ⟨ANODE_ROOTDIR, ANODE_ROOTDIR, []⟩ := if_pos rfl
  unfold Store.entriesOf
  cases hq : g.freshOwners q with
  | none => rfl
  | some n =>
      obtain ⟨-, rfl⟩ := g.freshOwners_some hq
      have hroot : g.freshRootDir.isDir = true := rfl
      dsimp only
      rw [if_pos hroot, g.freshRootDir_blocks, Meta.listing_single, Meta.entriesAt, hdir]
      rfl

/-- A fresh volume is settled. -/
theorem settled_freshStore (data : ℕ → Sector) (clock : ℕ → Datestamp) :
    (g.freshStore data clock).Settled g.freshOwners := by
  have hbase := g.base_add_two_le
  have hdyn : g.IsDynamic (blockAt (g.base + 1)) := ⟨g.base + 1, by omega, by omega, rfl⟩
  have hdir : (g.freshStore data clock).live.dir (blockAt (g.base + 1)) =
      some ⟨ANODE_ROOTDIR, ANODE_ROOTDIR, []⟩ := if_pos rfl
  have hlisting := g.entriesOf_freshStore data clock
  refine ⟨?_, rfl, ?_, rfl, rfl, rfl⟩
  · refine
      { sane := g.freshStore_sane data clock
        linked := fun {h n} hn => ?_
        used := fun {h n a} hn ha => ?_
        anode_inj := fun hn hn' _ _ _ => (g.freshOwners_some hn).1.trans (g.freshOwners_some hn').1.symm
        anode_nodup := fun {h n} hn => ?_
        taken := fun {h n b} hn hb => ?_
        kind := fun {h n b} hn hb => ?_
        content := fun {h n b} hn _ hb => ?_
        block_inj := fun hn hn' _ _ => (g.freshOwners_some hn).1.trans (g.freshOwners_some hn').1.symm
        block_nodup := fun {h n} hn => ?_
        held_taken := fun b hb => absurd hb List.not_mem_nil
        held_free := fun b hb => absurd hb List.not_mem_nil
        held_nodup := List.nodup_nil }
    all_goals obtain ⟨rfl, rfl⟩ := g.freshOwners_some hn
    · exact ⟨by decide, g.freshMeta_getAnode, rfl⟩
    · rcases List.mem_singleton.mp ha with rfl
      exact Nat.one_ne_zero
    · exact List.nodup_singleton _
    · rw [g.freshRootDir_blocks, List.mem_singleton] at hb
      subst hb
      refine Or.inl ⟨hdyn, fun s hs => ?_, fun k hk => ?_⟩
      · have hs' : g.freshMeta.index s = blockAt (g.base + 1) := hs
        by_cases h0 : g.freshMeta.index s = 0
        · rw [h0] at hs'
          simp only [blockAt] at hs'
          omega
        · rw [(g.freshIndex_ne h0).2] at hs'
          have := blockAt_inj hs'
          omega
      · have hk' := blockAt_inj hk
        show (decide (g.base + 2 ≤ k) && _) = false
        rw [decide_eq_false (by omega), Bool.false_and]
    · rw [g.freshRootDir_blocks, List.mem_singleton] at hb
      subst hb
      exact ⟨fun _ => Store.Taken.lt hdyn, fun _ => rfl⟩
    · rw [g.freshRootDir_blocks, List.mem_singleton] at hb
      rw [hb, hdir]
      rfl
    · rw [g.freshRootDir_blocks]
      exact List.nodup_singleton _
  · refine ⟨rfl, fun {p e} he => ?_, fun p => ?_, fun {p q e e'} he => ?_⟩
    · rw [hlisting] at he
      cases he
    · rw [hlisting]
      exact List.nodup_nil
    · rw [hlisting] at he
      cases he

/-- A fresh volume has room for a directory. -/
theorem affords_createDir (data : ℕ → Sector) (clock : ℕ → Datestamp) :
    (g.freshStore data clock).Affords (.createDir ['a']) := by
  have hset := g.settled_freshStore data clock
  intro p name hsplit
  obtain ⟨rfl, rfl⟩ := Store.splitPath_single hsplit
  refine Or.inr ⟨Or.inr ⟨by omega, fun s => by rw [hset.disk]⟩, ?_⟩
  rw [hset.blocksOf (g.freshOwners_root), g.freshRootDir_blocks]
  exact ⟨_, List.mem_cons_self, ⟨ANODE_ROOTDIR, ANODE_ROOTDIR, []⟩, if_pos rfl, by decide⟩

/-- A fresh volume has room for a file of one block. -/
theorem affords_writeFile (data : ℕ → Sector) (clock : ℕ → Datestamp) :
    (g.freshStore data clock).Affords (.writeFile ['f'] [1]) := by
  have hset := g.settled_freshStore data clock
  intro p name hsplit
  have hrun : Store.splitPath ['f'] (g.freshStore data clock) =
      .ok (ANODE_ROOTDIR, ['f']) (g.freshStore data clock) := rfl
  rw [hrun] at hsplit
  cases hsplit
  constructor
  case overwrite =>
    intro e he _
    rw [hset.found_eq g.freshOwners_root rfl, g.entriesOf_freshStore] at he
    cases he
  case create =>
    intro _
    have hone : (g.freshStore data clock).dataAnodes [1] ≤ 1 :=
      (Writer.length_clusters_le _).trans (by
        rw [Store.firstFree, List.length_map]
        exact (List.length_take_le _ _).trans (by decide))
    refine Or.inr ⟨Or.inr ⟨by omega, fun s => by rw [hset.disk]⟩, ?_⟩
    rw [hset.blocksOf (g.freshOwners_root), g.freshRootDir_blocks]
    exact ⟨_, List.mem_cons_self, ⟨ANODE_ROOTDIR, ANODE_ROOTDIR, []⟩, if_pos rfl, by decide⟩

end Geometry

/-! ## Sessions -/

/-- Format a device, open it and make the calls. -/
def session (totalBlocks : ℕ) (opts : FormatOptions) (now : Datestamp) (clock : ℕ → Datestamp)
    (calls : List Call) (d : Device) : Option Writer :=
  match Format.formatWithSize totalBlocks opts now d with
  | .error _ _ => none
  | .ok _ d' =>
      match Volume.fromDevice d' with
      | .error _ => none
      | .ok v =>
          match Writer.open v clock with
          | .error _ => none
          | .ok w =>
              match calls.forM Call.run w with
              | .error _ _ => none
              | .ok _ w' => some w'

theorem of_session {totalBlocks : ℕ} {opts : FormatOptions} {now : Datestamp}
    {clock : ℕ → Datestamp} {calls : List Call} {d : Device} {w' : Writer}
    (h : session totalBlocks opts now clock calls d = some w') :
    ∃ res d' v w, Format.formatWithSize totalBlocks opts now d = .ok res d' ∧
      Volume.fromDevice d' = .ok v ∧ Writer.open v clock = .ok w ∧
      calls.forM Call.run w = .ok () w' := by
  unfold session at h
  split at h
  · cases h
  · rename_i res d' hformat
    split at h
    · cases h
    · rename_i v hv
      split at h
      · cases h
      · rename_i w hw
        split at h
        · cases h
        · rename_i u w₁ hrun
          cases h
          exact ⟨res, d', v, w, hformat, hv, hw, hrun⟩

/-- A device of zeros. -/
def blankDevice (total : ℕ) : Device where
  sectors := fun _ => .ofBytes []
  total := total
  writable := true
  faults := fun _ => false
  attempts := 0
  log := []

theorem sound_blankDevice (total : ℕ) : (blankDevice total).Sound := ⟨rfl, fun _ => rfl⟩

/-- A session on a blank device of 67 blocks, the smallest that can be formatted. -/
def smallSession (calls : List Call) : Option Writer :=
  session 67 ⟨['v'], false⟩ ⟨0, 0, 0⟩ (fun _ => ⟨0, 0, 0⟩) calls (blankDevice 67)

/-- Opening a freshly formatted device. -/
theorem Format.Fresh.open {g : Geometry} {opts : FormatOptions} {now : Datestamp} {d : Device}
    (h : Format.Fresh g opts now d) (clock : ℕ → Datestamp) :
    ∃ v w, Volume.fromDevice d = .ok v ∧ Writer.open v clock = .ok w ∧ w.vol.dev = d ∧
      Rep g w (g.freshStore d.sectors clock) :=
  open_ok h.holds h.rootRep h.laid.sound clock

/-- What a writer stands for that was opened on a freshly formatted device. -/
theorem rep_of_format {d d' : Device} {totalBlocks : ℕ} {opts : FormatOptions} {now : Datestamp}
    {res : FormatResult} {clock : ℕ → Datestamp} {v : Volume} {w : Writer}
    (hformat : Format.formatWithSize totalBlocks opts now d = .ok res d') (hsound : d.Sound)
    (htotal : totalBlocks ≤ d.total) (hsmall : totalBlocks ≤ Format.MAXSMALLDISK)
    (hv : Volume.fromDevice d' = .ok v) (hw : Writer.open v clock = .ok w) :
    ∃ g : Geometry, g.disksize = totalBlocks ∧ Rep g w (g.freshStore d'.sectors clock) := by
  obtain ⟨g, hsize, -, hfresh⟩ := Format.fresh_of_format hformat hsound htotal hsmall
  obtain ⟨v₁, w₁, hv₁, hw₁, -, hrep⟩ := hfresh.open clock
  rw [hv] at hv₁
  cases hv₁
  rw [hw] at hw₁
  cases hw₁
  exact ⟨g, hsize, hrep⟩

/-- The device of a writer can be opened again. -/
theorem Rep.reopen {g : Geometry} {w : Writer} {S : Store} (h : Rep g w S) :
    ∃ v, Volume.fromDevice w.vol.dev = .ok v ∧ VolRep v g S.disk w.vol.dev.sectors ∧
      v.dev = w.vol.dev ∧ RootRep g w.vol.dev S.root ∧
      v.rootblock.blocksfree = S.root.blocksfree ∧
      v.rootblock.reservedFree = S.root.reservedFree := by
  obtain rfl := h.geo
  obtain ⟨v, hv, hrep, hdev, -, hbf, hrf, -⟩ := fromDevice_ok h.vol.holds h.root
  exact ⟨v, hv, hrep, hdev, h.root, hbf, hrf⟩

/-- A run of calls that keep every object in one place ends with a settled volume. -/
theorem Rep.run_calls {g : Geometry} {w w' : Writer} {S : Store} {T : Owners} {calls : List Call}
    (h : Rep g w S) (hset : S.Settled T) (hrun : calls.forM Call.run w = .ok () w')
    (halong : Along Call.spec (fun c S => S.Affords c) calls S) :
    ∃ S' T', calls.forM Call.spec S = .ok () S' ∧ Rep g w' S' ∧ S'.Settled T' := by
  obtain ⟨S', hspec, hrep, T', hset'⟩ := run_along (E := Store.anyError) (fun S => ∃ T, S.Settled T)
    (fun c _ _ h => c.sim h) (by
      rintro c S ⟨T, hset⟩ haff
      refine (Store.post_call hset c haff).mono ?_ fun _ _ h => h
      rintro _ S' ⟨T', heff⟩
      exact ⟨T', heff.settled⟩) calls h ⟨T, hset⟩ halong hrun
  exact ⟨S', T', hspec, hrep, hset'⟩

end Pfs3
