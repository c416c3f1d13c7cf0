import Pfs3.Tree.Calls
import Pfs3.Tree.Start
import Pfs3.Walk.Depth

/-!
# Directory headers

Each block of a directory names the directory and its parent.  Two things break this: a
directory that grows names itself as the parent of its new block, and a directory that is moved
keeps the old parent in its blocks.  A run without both keeps it.
-/

namespace Pfs3

open ByteList Stop

/-! ## The property -/

/-- The directory `d` can be reached from the root, by an entry in `parent`. -/
inductive DirIn (v : Volume) : (parent d : ℕ) → Prop
  | root : DirIn v ANODE_ROOTDIR ANODE_ROOTDIR
  | sub {parent d : ℕ} {entries : List DirEntry} {e : DirEntry} (dir : DirIn v parent d)
      (list : v.answer (Volume.listDirByAnode d) = .ok entries) (mem : e ∈ entries)
      (isDir : e.isDir = true) : DirIn v d e.anode

/-- Every directory block names its directory and the parent of its directory. -/
def HeadersAgree (v : Volume) : Prop :=
  ∀ parent d, DirIn v parent d → ∃ chain, v.answer (Volume.getAnodeChain d) = .ok chain ∧
    ∀ b ∈ AnodeReader.chainBlocks chain, ∃ hdr,
      DirBlockHeader.parse (v.dev.bytesAt b 2) = .ok hdr ∧ hdr.anodenr = d ∧ hdr.parent = parent

namespace Store

variable {S S' : Store} {T T' : Owners}

/-! ## The invariant -/

/-- The header of a block of the directory `q`, when `q` has its entry in one of the directories. -/
def HeadOf (S : Store) (T : Owners) (q b : ℕ) : Prop :=
  ∃ d, S.live.dir b = some d ∧ d.anodenr = q ∧ (q = ANODE_ROOTDIR → d.parent = ANODE_ROOTDIR) ∧
    ∀ p e, e ∈ entriesOf S.live T p → e.anode.toNat = q → d.parent = p

/-- Every directory block names its directory and the parent of its directory. -/
def Headed (S : Store) (T : Owners) : Prop :=
  ∀ q n, T q = some n → n.isDir = true → ∀ b ∈ n.blocks, S.HeadOf T q b

/-- Directories that stay where they are keep their blocks; new blocks have the right header. -/
theorem Headed.step (hh : S.Headed T)
    (hkeep : ∀ q n, T q = some n → n.isDir = true → ∀ p x, x ∈ entriesOf S'.live T' p →
      x.anode.toNat = q → ∃ y ∈ entriesOf S.live T p, y.anode.toNat = q)
    (hblocks : ∀ q n', T' q = some n' → n'.isDir = true → ∀ b ∈ n'.blocks,
      (∃ n, T q = some n ∧ n.isDir = true ∧ b ∈ n.blocks ∧ SameHead S S' b) ∨ S'.HeadOf T' q b) :
    S'.Headed T' := by
  intro q n' hq hd b hb
  rcases hblocks q n' hq hd b hb with ⟨n, hn, hnd, hbn, hsame⟩ | hnew
  · obtain ⟨d, hdir, ha, hroot, hparent⟩ := hh q n hn hnd b hbn
    obtain ⟨d', hdir', ha', hp'⟩ := hsame d hdir
    refine ⟨d', hdir', ha'.trans ha, fun hq => hp'.trans (hroot hq), fun p x hx hxq => ?_⟩
    obtain ⟨y, hy, hyq⟩ := hkeep q n hn hnd p x hx hxq
    exact hp'.trans (hparent p y hy hyq)
  · exact hnew

/-- A new block of the root directory. -/
theorem Settled.headOf_root (h : S.Settled T) {b : ℕ} {d : DirBlock} (hd : S.live.dir b = some d)
    (ha : d.anodenr = ANODE_ROOTDIR) (hp : d.parent = ANODE_ROOTDIR) :
    S.HeadOf T ANODE_ROOTDIR b :=
  ⟨d, hd, ha, fun _ => hp, fun _ _ he heq => absurd heq (h.forest.entry he).2⟩

theorem Headed.entered {p nr : ℕ} {m : Node} {e : Entry} (hh : S.Headed T) (h : S.Settled T)
    (he : Entered S S' T T' p nr m e)
    (hfit : ∀ n, T p = some n → ¬ S.HasSpace n.blocks e.size → p = ANODE_ROOTDIR) :
    S'.Headed T' := by
  have hmem : ∀ q x, x ∈ entriesOf S'.live T' q → (q = p ∧ x = e) ∨ x ∈ entriesOf S.live T q := by
    intro q x hx
    by_cases hq : q = p
    · subst hq
      obtain ⟨l₁, l₂, hl, hl'⟩ := he.entries
      rw [hl', Forest.mem_middle] at hx
      rcases hx with rfl | hx
      · exact Or.inl ⟨rfl, rfl⟩
      · exact Or.inr (hl ▸ hx)
    · exact Or.inr (he.entries_other q hq ▸ hx)
  refine hh.step (fun q n hq _ p' x hx hxq => ?_) fun q n' hq hd b hb => ?_
  · rcases hmem p' x hx with ⟨-, rfl⟩ | hx
    · rw [← hxq, he.anode, he.new] at hq
      cases hq
    · exact ⟨x, hx, hxq⟩
  · rcases he.heads q n' hq hd b hb with hold | ⟨d, hdir, ha, hp, hwhy⟩
    · exact Or.inl hold
    · refine Or.inr ?_
      rcases hwhy with hnr | ⟨rfl, n, hn, hno⟩
      · cases hnr
        refine ⟨d, hdir, ha, fun hroot => ?_, fun p' x hx hxq => ?_⟩
        · obtain ⟨n, hn, -⟩ := h.root
          rw [← hroot, he.new] at hn
          cases hn
        · rcases hmem p' x hx with ⟨rfl, -⟩ | hx
          · exact hp
          · obtain ⟨n, hn, -⟩ := h.node hx
            rw [hxq, he.new] at hn
            cases hn
      · obtain rfl := hfit n hn hno
        exact he.settled.headOf_root hdir ha hp

theorem Headed.deleted {p : ℕ} {e : Entry} {l₁ l₂ : List Entry} (hh : S.Headed T)
    (hdel : Deleted S S' T p e l₁ l₂) : S'.Headed (Function.update T e.anode.toNat none) := by
  refine hh.step (fun q _ _ _ p' x hx hxq => ⟨x, ?_, hxq⟩) fun q n' hq hd b hb => Or.inl ?_
  · by_cases hp : p' = p
    · subst hp
      rw [hdel.entries] at hx
      rw [hdel.old]
      exact Forest.mem_middle.mpr (Or.inr hx)
    · exact hdel.entries_other p' hp ▸ hx
  · by_cases hqe : q = e.anode.toNat
    · rw [hqe, Function.update_self] at hq
      cases hq
    · rw [Function.update_of_ne hqe] at hq
      exact ⟨n', hq, hd, hb, hdel.heads b⟩

theorem Headed.moved {s d : ℕ} {e e' : Entry} (hh : S.Headed T) (h : S.Settled T)
    (hm : Moved S S' T T' s d e e') (hdir : e.isDir = true → s = d)
    (hfit : ∀ n, T d = some n → ¬ S.HasSpace n.blocks e'.size → d = ANODE_ROOTDIR) :
    S'.Headed T' := by
  refine hh.step (fun q n hq hd p x hx hxq => ?_) fun q n' hq hd b hb => ?_
  · rcases hm.entries p x hx with hx | ⟨rfl, rfl⟩
    · exact ⟨x, hx, hxq⟩
    · -- the moved entry is one of a directory
      rw [hm.anode] at hxq
      obtain ⟨n₀, hn₀, hd₀⟩ := h.node hm.old
      rw [hxq, hq] at hn₀
      cases hn₀
      obtain rfl := hdir (hd₀.symm.trans hd)
      exact ⟨e, hm.old, hxq⟩
  · rcases hm.heads q n' hq hd b hb with hold | ⟨dir, hdir', ha, hp, hwhy⟩
    · exact Or.inl hold
    · refine Or.inr ?_
      rcases hwhy with hnone | ⟨rfl, n, hn, hno⟩
      · cases hnone
      · obtain rfl := hfit n hn hno
        exact hm.settled.headOf_root hdir' ha hp

theorem Headed.rewritten {p : ℕ} {e : Entry} {m : Node} {now : Datestamp} {data : Bytes}
    (hh : S.Headed T) (h : S.Settled T) (hw : Rewritten S S' T p e m now data) :
    S'.Headed (Function.update T e.anode.toNat (some m)) := by
  refine hh.step (fun q _ _ _ p' x hx hxq => ?_) fun q n' hq hd b hb => Or.inl ?_
  · by_cases hp : p' = p
    · subst hp
      obtain ⟨l₁, l₂, hl, hl'⟩ := hw.entries
      rw [hl', Forest.mem_middle] at hx
      rw [hl]
      rcases hx with rfl | hx
      · exact ⟨e, Forest.mem_middle.mpr (Or.inl rfl), hxq⟩
      · exact ⟨x, Forest.mem_middle.mpr (Or.inr hx), hxq⟩
    · exact ⟨x, hw.entries_other p' hp ▸ hx, hxq⟩
  · by_cases hqe : q = e.anode.toNat
    · rw [hqe, Function.update_self] at hq
      cases hq
      rw [hw.isDir] at hd
      cases hd
    · rw [Function.update_of_ne hqe] at hq
      exact ⟨n', hq, hd, hb, hw.heads b (h.owned.taken hq hb)⟩

theorem Headed.protected {p : ℕ} {e : Entry} {protection : UInt8} (hh : S.Headed T)
    (hp : Protected S S' T p e protection) : S'.Headed T := by
  refine hh.step (fun q _ _ _ p' x hx hxq => ?_) fun q n' hq hd b hb =>
    Or.inl ⟨n', hq, hd, hb, hp.heads b⟩
  by_cases hpp : p' = p
  · subst hpp
    obtain ⟨l₁, l₂, hl, hl'⟩ := hp.entries
    rw [hl', Forest.mem_middle] at hx
    rw [hl]
    rcases hx with rfl | hx
    · exact ⟨e, Forest.mem_middle.mpr (Or.inl rfl), hxq⟩
    · exact ⟨x, Forest.mem_middle.mpr (Or.inr hx), hxq⟩
  · exact ⟨x, hp.entries_other p' hpp ▸ hx, hxq⟩

/-! ## The condition -/

/-- The entry fits a block of the directory, unless that is the root. -/
def FitsOrRoot (S : Store) (p size : ℕ) : Prop :=
  p = ANODE_ROOTDIR ∨ S.HasSpace (S.blocksOf p) size

/-- The state after the call has deleted an object of the new name. -/
def cleared (S : Store) (d : ℕ) (name : Name) : Store :=
  match deleteIn d name S with
  | .ok _ S₁ => S₁
  | .error _ _ => S

/-- No directory but the root grows, and no directory moves to another one. -/
def KeepsPlaces (S : Store) : Call → Prop
  | .writeFile path data => ∀ p name, splitPath path S = .ok (p, name) S →
      (∀ e, S.found p name = some e → ¬ e.IsPlain) → S.FitsOrRoot p (entrySize name data.length)
  | .createDir path => ∀ p name, splitPath path S = .ok (p, name) S →
      S.FitsOrRoot p (entrySize name 0)
  | .createSoftlink path target => ∀ p name, splitPath path S = .ok (p, name) S →
      S.FitsOrRoot p (entrySize name (asBytes target).length)
  | .renameIn srcParent srcName dstParent dstName => ∀ e, S.found srcParent srcName = some e →
      (e.isDir = true → srcParent = dstParent) ∧
        (S.cleared dstParent dstName).FitsOrRoot dstParent (entrySize dstName e.fileSize)
  | _ => True

theorem FitsOrRoot.fit {p size : ℕ} (h : S.FitsOrRoot p size) (hS : S.Settled T) {n : Node}
    (hp : T p = some n) (hno : ¬ S.HasSpace n.blocks size) : p = ANODE_ROOTDIR := by
  rcases h with h | h
  · exact h
  · rw [hS.blocksOf hp] at h
    exact absurd h hno

theorem Cleared.eq {S₁ : Store} {T₁ : Owners} {d : ℕ} {name : Name}
    (h : Cleared S S₁ T T₁ d name) : S.cleared d name = S₁ := by
  unfold cleared
  cases h with
  | kept store _ run =>
      rw [store]
      rcases hrun : deleteIn d name S with ⟨⟨⟩, S'⟩ | ⟨f, S'⟩
      · exact absurd hrun (run S')
      · rfl
  | deleted _ _ _ _ run =>
      rw [run]

/-- The invariant over one call. -/
theorem Headed.effect {c : Call} (hh : S.Headed T) (h : S.Settled T) (he : Effect S S' T T' c)
    (hc : S.KeepsPlaces c) : S'.Headed T' := by
  cases he with
  | wrote split fresh enter _ =>
      refine hh.entered h enter fun n hn hno => ?_
      rw [size_build] at hno
      exact FitsOrRoot.fit (hc _ _ split fresh) h hn hno
  | rewrote _ _ _ rewritten owners => exact owners ▸ hh.rewritten h rewritten
  | madeDir split _ enter =>
      refine hh.entered h enter fun n hn hno => ?_
      rw [size_build] at hno
      exact FitsOrRoot.fit (hc _ _ split) h hn hno
  | linked split enter _ =>
      refine hh.entered h enter fun n hn hno => ?_
      rw [size_build] at hno
      exact FitsOrRoot.fit (hc _ _ split) h hn hno
  | deleted _ gone owners => exact owners ▸ hh.deleted gone
  | renamed source clear moved =>
      obtain ⟨hdir, hfit⟩ := hc _ source
      rw [clear.eq] at hfit
      obtain ⟨hset, hh₁⟩ : Settled _ _ ∧ Headed _ _ := by
        cases clear with
        | kept store owners _ => exact ⟨store ▸ owners ▸ h, store ▸ owners ▸ hh⟩
        | deleted _ _ _ _ _ gone owners => exact ⟨owners ▸ gone.settled, owners ▸ hh.deleted gone⟩
      refine hh₁.moved hset moved hdir fun n hn hno => ?_
      rw [size_build] at hno
      exact hfit.fit hset hn hno
  | reprotected changed owners => exact owners ▸ hh.protected changed
  | named settled live _ _ owners =>
      subst owners
      intro q n hq hd b hb
      unfold HeadOf
      rw [live]
      exact hh q n hq hd b hb

/-! ## The volume on the device -/

theorem DirIn.directory {v : Volume} {g : Geometry} {data : ℕ → Sector} (hv : VolRep v g S.disk data)
    (h : S.Settled T) {parent d : ℕ} (hd : DirIn v parent d) :
    parent < U32 ∧ d < U32 ∧ (∃ n, T d = some n ∧ n.isDir = true) ∧
      ((d = ANODE_ROOTDIR ∧ parent = ANODE_ROOTDIR) ∨
        ∃ e ∈ entriesOf S.live T parent, e.anode.toNat = d) := by
  have hu : U32 = 2 ^ 32 := rfl
  have hroot : ANODE_ROOTDIR = 5 := rfl
  induction hd with
  | root => exact ⟨by omega, by omega, h.root, Or.inl ⟨rfl, rfl⟩⟩
  | sub _ hlist he hdir ih =>
      rename_i d entries e _
      obtain ⟨-, hlt, ⟨n, hn, hnd⟩, -⟩ := ih
      have hread := hv.listDirByAnode d
      rw [h.listEntries hn hnd (h.getChain hn)] at hread
      obtain ⟨es, hes, hmap⟩ := answer_of_reads hread hv.refl
      rw [hlist] at hes
      cases hes
      have hmap' : entries = (entriesOf S.live T d).map Entry.toDirEntry := hmap
      rw [hmap'] at he
      obtain ⟨x, hx, rfl⟩ := List.mem_map.mp he
      obtain ⟨m, hm, hmd⟩ := h.node hx
      exact ⟨hlt, hu ▸ x.anode.toNat_lt, ⟨m, hm, hmd.trans hdir⟩, Or.inr ⟨x, hx, rfl⟩⟩

/-- What the invariant says about a volume opened on the device. -/
theorem Headed.agree {v : Volume} {g : Geometry} {data : ℕ → Sector} (hh : S.Headed T)
    (h : S.Settled T) (hv : VolRep v g S.disk data) : HeadersAgree v := by
  intro parent d hd
  obtain ⟨hplt, hdlt, ⟨n, hn, hnd⟩, hin⟩ := DirIn.directory hv h hd
  have hu : U32 = 2 ^ 32 := rfl
  have hread := hv.getAnodeChain d
  rw [h.getChain hn] at hread
  obtain ⟨chain, hchain, rfl⟩ := answer_of_reads hread hv.refl
  refine ⟨n.chain, hchain, fun b hb => ?_⟩
  obtain ⟨dir, hdir, ha, hroot, hparent⟩ := hh d n hn hnd b hb
  obtain ⟨ds, himage⟩ := hv.content.dirs b dir (by rw [h.disk]; exact hdir)
  have hpar : dir.parent = parent := by
    rcases hin with ⟨rfl, rfl⟩ | ⟨e, he, heq⟩
    · exact hroot rfl
    · exact hparent parent e he heq
  refine ⟨_, (congrArg DirBlockHeader.parse himage).trans (parse_dirImage ds dir), ?_, ?_⟩
  · rw [ha]
    exact Nat.mod_eq_of_lt (hu ▸ hdlt)
  · rw [hpar]
    exact Nat.mod_eq_of_lt (hu ▸ hplt)

theorem headed_freshStore (g : Geometry) (data : ℕ → Sector) (clock : ℕ → Datestamp) :
    (g.freshStore data clock).Headed g.freshOwners := by
  intro q n hq _ b hb
  obtain ⟨rfl, rfl⟩ := g.freshOwners_some hq
  rw [g.freshRootDir_blocks, List.mem_singleton] at hb
  subst hb
  exact (g.settled_freshStore data clock).headOf_root (if_pos rfl) rfl rfl

end Store

/-! ## Runs -/

/-- In a run from a fresh format in which no directory but the root grows and no directory moves,
every directory block names its directory and the parent of its directory. -/
theorem headers_agree {d d' : Device} {totalBlocks : ℕ} {opts : FormatOptions} {now : Datestamp}
    {res : FormatResult} {clock : ℕ → Datestamp} {v : Volume} {w : Writer}
    (hformat : Format.formatWithSize totalBlocks opts now d = .ok res d') (hsound : d.Sound)
    (htotal : totalBlocks ≤ d.total) (hsmall : totalBlocks ≤ Format.MAXSMALLDISK)
    (hv : Volume.fromDevice d' = .ok v) (hw : Writer.open v clock = .ok w) :
    ∃ g : Geometry, g.disksize = totalBlocks ∧ Rep g w (g.freshStore d'.sectors clock) ∧
      ∀ calls w', calls.forM Call.run w = .ok () w' →
        Along Call.spec (fun c S => S.Affords c ∧ S.KeepsPlaces c) calls
          (g.freshStore d'.sectors clock) →
        ∃ v', Volume.fromDevice w'.vol.dev = .ok v' ∧ HeadersAgree v' := by
  obtain ⟨g, hsize, hrep⟩ := rep_of_format hformat hsound htotal hsmall hv hw
  refine ⟨g, hsize, hrep, fun calls w' hrun halong => ?_⟩
  obtain ⟨S, -, hS, T, hset, hheads⟩ := run_along (E := Store.anyError)
    (fun S => ∃ T, S.Settled T ∧ S.Headed T) (fun c _ _ h => c.sim h) (by
      rintro c S ⟨T, hset, hheads⟩ ⟨haff, hkeep⟩
      refine (Store.post_call hset c haff).mono ?_ fun _ _ h => h
      rintro _ S' ⟨T', heff⟩
      exact ⟨T', heff.settled, hheads.effect hset heff hkeep⟩) calls hrep
    ⟨g.freshOwners, g.settled_freshStore _ _, Store.headed_freshStore g _ _⟩ halong hrun
  obtain ⟨v', hv', hrep', -⟩ := hS.reopen
  exact ⟨v', hv', hheads.agree hset hrep'⟩

def newDirectory : Evaluated (smallSession [.createDir ['a']]) fun _ => true :=
  .of (by decide +kernel)

/-- A new directory in the root of a small volume. -/
theorem headers_agree_createDir : ∃ w v, smallSession [.createDir ['a']] = some w ∧
    Volume.fromDevice w.vol.dev = .ok v ∧ HeadersAgree v := by
  obtain ⟨w, hrun, -⟩ := newDirectory
  obtain ⟨res, d', v, w₀, hformat, hv, hw, hcalls⟩ := of_session hrun
  obtain ⟨g, -, -, hall⟩ := headers_agree hformat (sound_blankDevice 67) (le_refl 67) (by decide)
    hv hw
  have hneeds : (g.freshStore d'.sectors fun _ => ⟨0, 0, 0⟩).KeepsPlaces (.createDir ['a']) :=
    fun p name hsplit => Or.inl (Store.splitPath_single hsplit).1
  obtain ⟨v', hv', hagree⟩ := hall _ w hcalls
    ⟨⟨g.affords_createDir d'.sectors _, hneeds⟩, fun _ _ => trivial⟩
  exact ⟨w, v', hrun, hv', hagree⟩

/-- The call that leaves a directory with a stale parent. -/
def movingCalls : List Call := [.createDir ['a'], .createDir ['b'], .renameIn 5 ['a'] 7 ['a']]

/-- Whether the directory 6 in the directory 7 has a first block that names another parent. -/
def staleParent (w : Writer) : Bool :=
  match Volume.fromDevice w.vol.dev with
  | .error _ => false
  | .ok v =>
      match v.answer (Volume.listDirByAnode 5), v.answer (Volume.listDirByAnode 7),
        v.answer (Volume.getAnodeChain 6) with
      | .ok es, .ok es', .ok chain =>
          (es.any fun e => e.isDir && e.anode == 7) && (es'.any fun e => e.isDir && e.anode == 6) &&
          (AnodeReader.chainBlocks chain).any fun b =>
            match DirBlockHeader.parse (v.dev.bytesAt b 2) with
            | .error _ => false
            | .ok hdr => hdr.parent != 7
      | _, _, _ => false

theorem of_staleParent {w : Writer} (h : staleParent w = true) :
    ∃ v, Volume.fromDevice w.vol.dev = .ok v ∧ ¬ HeadersAgree v := by
  unfold staleParent at h
  split at h
  · cases h
  · rename_i v hv
    refine ⟨v, hv, fun hagree => ?_⟩
    split at h
    · rename_i es es' chain hes hes' hchain
      rw [Bool.and_eq_true, Bool.and_eq_true, List.any_eq_true, List.any_eq_true,
        List.any_eq_true] at h
      obtain ⟨⟨⟨e, he, hb⟩, e', he', ha⟩, b, hmem, hhdr⟩ := h
      rw [Bool.and_eq_true, beq_iff_eq] at hb ha
      have hdir : DirIn v 7 6 := by
        have hsub := DirIn.sub .root hes he hb.1
        rw [hb.2] at hsub
        have hsub' := DirIn.sub hsub hes' he' ha.1
        rw [ha.2] at hsub'
        exact hsub'
      obtain ⟨chain', hchain', hall⟩ := hagree 7 6 hdir
      rw [hchain] at hchain'
      cases hchain'
      obtain ⟨hdr, hparse, -, hparent⟩ := hall b hmem
      rw [hparse] at hhdr
      exact absurd (bne_iff_ne.mp hhdr) (not_not_intro hparent)
    · cases h

def movedDirectory : Evaluated (smallSession movingCalls) staleParent :=
  .of (by decide +kernel)

/-- A moved directory keeps the old parent in its blocks. -/
theorem headers_moved : ∃ w v, smallSession movingCalls = some w ∧
    Volume.fromDevice w.vol.dev = .ok v ∧ ¬ HeadersAgree v := by
  obtain ⟨w, hw, hstale⟩ := movedDirectory
  obtain ⟨v, hv, hnot⟩ := of_staleParent hstale
  exact ⟨w, v, hw, hv, hnot⟩

end Pfs3
