import Pfs3.Store.Rep

/-!
# Readers

Every reader of the library, run on a device that holds the content `m`, returns what the
reader of the structured store returns, whatever the cache holds.
-/

namespace Pfs3

open ByteList BlockCache Stop

/-- A reader opened on a small-mode volume with the layout `g`. -/
structure Geometry.SmallReader (g : Geometry) (r : AnodeReader) : Prop where
  rbs : r.reservedBlksize = 1024
  apb : r.anodesPerBlock = 84
  ipb : r.indexPerBlock = 253
  split : r.splitMode = true
  large : r.isLarge = false
  indexblocks : ∀ i, r.indexblocks.getD i 0 = if i = 0 then g.anidx else 0

theorem Geometry.SmallRb.reader {g : Geometry} {rb : Rootblock} (h : g.SmallRb rb)
    (ext : Option RootblockExt) : g.SmallReader (.new rb ext) where
  rbs := h.rbs
  apb := by simp [AnodeReader.new, Rootblock.anodesPerBlock, h.rbs, ANODE_BLOCK_HEADER_SIZE,
    ANODE_SIZE]
  ipb := by simp [AnodeReader.new, Rootblock.indexPerBlock, h.rbs]
  split := h.split
  large := h.large
  indexblocks := h.indexblocks

/-- A device with the content `m` of a small-mode volume with the layout `g`. -/
structure Holds (dev : Device) (g : Geometry) (m : Meta) : Prop where
  content : Represents g (fun b => dev.bytesAt b 2) m
  wf : m.Wf g
  total : g.disksize ≤ dev.total

theorem VolRep.holds {v : Volume} {g : Geometry} {m : Meta} {data : ℕ → Sector}
    (h : VolRep v g m data) : Holds v.dev g m := ⟨h.content, h.wf, h.total⟩

namespace Holds

variable {dev : Device} {g : Geometry} {m : Meta} {r : AnodeReader}

/-- Reading a reserved block through the cache. -/
theorem readReserved (h : Holds dev g m) {b : ℕ} (hb : g.IsReserved b) :
    Reads (Coherent dev 1024 g.IsReserved) Eq (BlockCache.readReserved dev b 1024) (.ok (dev.bytesAt b 2)) := by
  have hr := @readReserved_reads dev 1024 g.IsReserved b hb
  rw [Device.readReserved_ok h.total hb] at hr
  exact hr

theorem index_lt (h : Holds dev g m) (s : ℕ) : m.index s < 2 ^ 32 := by
  by_cases hs : m.index s = 0
  · omega
  · have hlt := (h.wf.indexed s hs).2.isReserved.lt
    omega

/-- Resolving a sequence number. -/
theorem resolve (h : Holds dev g m) (hr : g.SmallReader r) (s : ℕ) :
    Reads (Coherent dev 1024 g.IsReserved) Eq (r.resolveAnodeBlock s dev) (.ok (m.index s)) := by
  unfold AnodeReader.resolveAnodeBlock
  simp only [hr.ipb, hr.large, hr.indexblocks]
  rw [if_neg (by omega)]
  simp only [Bool.false_eq_true, if_false]
  by_cases hs : s / 253 = 0
  · have hlt : s < 253 := by omega
    have hmod : s % 253 = s := Nat.mod_eq_of_lt hlt
    have hne : g.anidx ≠ 0 := by simp only [Geometry.anidx, Geometry.blockAt]; omega
    rw [if_pos hs, if_neg hne, hmod, AnodeReader.readIndexEntry, hr.rbs]
    obtain ⟨ds, himage⟩ := h.content.index
    have hval : be32 (dev.bytesAt g.anidx 2) (12 + s * 4) = m.index s := by
      have hmod := @index_indexImage ds s m.index hlt
      rw [Nat.mod_eq_of_lt (h.index_lt s)] at hmod
      rw [himage, hmod]
    have hlen : (dev.bytesAt g.anidx 2).length = 1024 := by rw [himage, length_indexImage]
    refine (h.readReserved g.anidx_isReserved).seq ?_
    simp only [INDEX_BLOCK_HEADER_SIZE, hlen, hval]
    rw [if_neg (by omega)]
    exact reads_pure rfl
  · have hzero : m.index s = 0 := by
      by_contra hne
      have hlt := (h.wf.indexed s hne).1
      omega
    rw [if_neg hs, if_pos rfl, hzero]
    exact reads_pure rfl

/-- Looking up an anode. -/
theorem getAnode (h : Holds dev g m) (hr : g.SmallReader r) (nr : ℕ) :
    Reads (Coherent dev 1024 g.IsReserved) Eq (r.getAnode nr dev) (m.getAnode nr) := by
  unfold AnodeReader.getAnode Meta.getAnode
  have hsplit : r.splitNr nr = (nr / 65536, nr % 65536) := by
    rw [AnodeReader.splitNr, hr.split, if_pos rfl]
  rw [if_neg (by rw [hr.split]; simp), hsplit]
  simp only []
  refine (h.resolve hr (nr / 65536)).seq ?_
  by_cases hzero : m.index (nr / 65536) = 0
  · rw [if_pos hzero, if_pos (Or.inl hzero)]
    exact reads_throw
  · obtain ⟨ds, himage⟩ := h.content.anodes _ hzero
    have himage : dev.bytesAt (m.index (nr / 65536)) 2 = anodeImage ds (nr / 65536) m.slot := himage
    have hlen : (dev.bytesAt (m.index (nr / 65536)) 2).length = 1024 := by
      rw [himage, length_anodeImage]
    rw [if_neg hzero, hr.rbs]
    refine (h.readReserved (h.wf.indexed _ hzero).2.isReserved).seq ?_
    have hid : be16 (dev.bytesAt (m.index (nr / 65536)) 2) 0 = ABLKID := by
      rw [himage, be16_anodeImage]
    rw [if_neg (by omega), if_neg (by rw [hid]; simp)]
    simp only [ANODE_BLOCK_HEADER_SIZE, ANODE_SIZE, hlen]
    by_cases hoff : SLOTS ≤ nr % 65536
    · rw [if_pos (by simp only [SLOTS] at hoff; omega), if_pos (Or.inr hoff)]
      exact reads_throw
    · have hoff' : nr % 65536 < SLOTS := by omega
      rw [if_neg (by simp only [SLOTS] at hoff; omega), if_neg (by tauto), himage,
        parse_anodeImage hoff']
      have hnr : nr / 65536 * 65536 + nr % 65536 = nr := by omega
      rw [hnr]
      exact reads_pure rfl

/-- Following a chain. -/
theorem getChainLoop (h : Holds dev g m) (hr : g.SmallReader r) (n : ℕ) :
    ∀ (seen : List ℕ) (nr : ℕ), Reads (Coherent dev 1024 g.IsReserved) Eq (r.getChainLoop dev n seen nr)
      (m.getChainLoop n seen nr) := by
  induction n with
  | zero =>
      intro seen nr
      unfold AnodeReader.getChainLoop Meta.getChainLoop
      split
      · exact reads_pure rfl
      · split
        · exact reads_throw
        · exact reads_throw
  | succ n ih =>
      intro seen nr
      unfold AnodeReader.getChainLoop Meta.getChainLoop
      split
      · exact reads_pure rfl
      · split
        · exact reads_throw
        · refine (h.getAnode hr nr).bind ?_
          rintro _ an rfl -
          refine (ih (nr :: seen) _).bind ?_
          rintro _ rest rfl -
          exact reads_pure rfl

theorem getChain (h : Holds dev g m) (hr : g.SmallReader r) (nr : ℕ) :
    Reads (Coherent dev 1024 g.IsReserved) Eq (r.getChain nr dev) (m.getChain nr) :=
  h.getChainLoop hr MAX_CHAIN_LEN [] nr

/-- The readers return the parsed form of the stored entries. -/
def Lists (parsed : List DirEntry) (es : List Entry) : Prop := parsed = es.map Entry.toDirEntry

theorem listBlocks (h : Holds dev g m) (hr : g.SmallReader r) (blks : List ℕ) :
    Reads (Coherent dev 1024 g.IsReserved) Lists (r.listBlocks dev blks) (m.listBlocks blks) := by
  induction blks with
  | nil => exact reads_pure rfl
  | cons blk blks ih =>
      unfold AnodeReader.listBlocks Meta.listBlocks
      unfold Meta.readDir
      cases hd : m.dir blk with
      | none => exact reads_stuck
      | some d =>
          obtain ⟨ds, himage⟩ := h.content.dirs blk d hd
          have himage : dev.bytesAt blk 2 = dirImage ds d := himage
          obtain ⟨hfit, hdyn, -⟩ := h.wf.dir blk d hd
          rw [hr.rbs]
          refine (h.readReserved hdyn.isReserved).seq ?_
          change Reads _ Lists _ (m.listBlocks blks >>= fun tail => pure (d.entries ++ tail))
          refine ih.bind ?_
          rintro tail es rfl -
          refine reads_pure ?_
          rw [himage, dirblockEntries_dirImage hfit]
          exact (List.map_append).symm

theorem listEntries (h : Holds dev g m) (hr : g.SmallReader r) (dirAnode : ℕ) :
    Reads (Coherent dev 1024 g.IsReserved) Lists (r.listEntries dirAnode dev) (m.listEntries dirAnode) := by
  unfold AnodeReader.listEntries Meta.listEntries
  refine (h.getChain hr dirAnode).bind ?_
  rintro chain _ rfl -
  exact h.listBlocks hr _

/-- One parsed entry. -/
def Shows (parsed : DirEntry) (e : Entry) : Prop := parsed = e.toDirEntry

theorem find?_map_toDirEntry (p : DirEntry → Bool) (es : List Entry) :
    (es.map Entry.toDirEntry).find? p =
      (es.find? fun e => p e.toDirEntry).map Entry.toDirEntry := by
  rw [List.find?_map]
  rfl

theorem lookup (h : Holds dev g m) (hr : g.SmallReader r) (dirAnode : ℕ) (name : Name) :
    Reads (Coherent dev 1024 g.IsReserved) Shows (r.lookup dirAnode name dev) (m.lookup dirAnode name) := by
  unfold AnodeReader.lookup Meta.lookup
  refine (h.listEntries hr dirAnode).bind ?_
  rintro _ es rfl -
  simp only [find?_map_toDirEntry]
  have htext : ∀ e : Entry, nameEqCi e.toDirEntry.name name = nameEqCi e.text name := fun _ => rfl
  simp only [htext]
  cases es.find? fun e => nameEqCi e.text name with
  | none => exact reads_throw
  | some e => exact reads_pure rfl

/-- An optional entry. -/
def ShowsOpt (parsed : Option DirEntry) (e : Option Entry) : Prop :=
  parsed = e.map Entry.toDirEntry

theorem lookupLast (h : Holds dev g m) (hr : g.SmallReader r) (dirAnode : ℕ) (name : Name) :
    Reads (Coherent dev 1024 g.IsReserved) ShowsOpt (r.lookupLast dirAnode name dev)
      (m.lookupLast dirAnode name) := by
  intro c hc
  have hl := h.lookup hr dirAnode name c hc
  unfold AnodeReader.lookupLast Meta.lookupLast
  rcases hm : m.lookup dirAnode name with (f | _) | e <;> rw [hm] at hl
  · obtain ⟨c', hrun, hc'⟩ := hl
    rw [hrun]
    rcases f with e | _
    · cases e <;> first | exact ⟨_, rfl, hc'⟩ | exact ⟨_, _, rfl, rfl, hc'⟩
    · exact ⟨_, rfl, hc'⟩
  · trivial
  · obtain ⟨d, c', hrun, hd, hc'⟩ := hl
    rw [hrun]
    exact ⟨_, _, rfl, congrArg some hd, hc'⟩

theorem resolveParts (h : Holds dev g m) (hr : g.SmallReader r) (parts : List Name) :
    ∀ dirAnode, Reads (Coherent dev 1024 g.IsReserved) ShowsOpt (r.resolveParts dev dirAnode parts)
      (m.resolveParts dirAnode parts) := by
  induction parts with
  | nil =>
      intro dirAnode
      exact reads_pure rfl
  | cons part rest ih =>
      intro dirAnode
      cases rest with
      | nil => exact h.lookupLast hr dirAnode part
      | cons part' rest =>
          unfold AnodeReader.resolveParts Meta.resolveParts
          refine (h.lookup hr dirAnode part).bind ?_
          rintro _ e rfl -
          have hdir : e.toDirEntry.isDir = e.isDir := rfl
          rw [hdir]
          split
          · exact ih e.anode.toNat
          · exact reads_throw

theorem resolveDirParts (h : Holds dev g m) (hr : g.SmallReader r) (parts : List Name) :
    ∀ dirAnode, Reads (Coherent dev 1024 g.IsReserved) Eq (r.resolveDirParts dev dirAnode parts)
      (m.resolveDirParts dirAnode parts) := by
  induction parts with
  | nil =>
      intro dirAnode
      exact reads_pure rfl
  | cons part rest ih =>
      intro dirAnode
      unfold AnodeReader.resolveDirParts Meta.resolveDirParts
      refine (h.lookup hr dirAnode part).bind ?_
      rintro _ e rfl -
      have hdir : e.toDirEntry.isDir = e.isDir := rfl
      rw [hdir]
      split
      · exact ih e.anode.toNat
      · exact reads_throw

end Holds

/-! ## Volumes -/

/-- The same volume up to its cache. -/
def Volume.Same (v : Volume) (g : Geometry) (v' : Volume) : Prop :=
  ∃ c, v' = { v with cache := c } ∧ c.Coherent v.dev 1024 g.IsReserved

namespace VolRep

variable {v : Volume} {g : Geometry} {m : Meta} {data : ℕ → Sector}

theorem same (h : VolRep v g m data) {v' : Volume} (hv : v.Same g v') : VolRep v' g m data := by
  obtain ⟨c, rfl, hc⟩ := hv
  exact ⟨h.rb, h.ext, h.anodes, h.bitmap, hc, h.content, h.wf, h.data, h.total⟩

theorem refl (h : VolRep v g m data) : v.Same g v := ⟨v.cache, rfl, h.cache⟩

theorem onCache {α β : Type} {Q : α → β → Prop} {f : Device → CacheM α}
    {e : Except (Stop Fault) β} (h : Reads (Coherent v.dev 1024 g.IsReserved) Q (f v.dev) e) :
    Reads (v.Same g) Q (Volume.onCache f) e := by
  rintro _ ⟨c, rfl, hc⟩
  have hf := h c hc
  rcases e with (e | _) | b
  · obtain ⟨c', hrun, hc'⟩ := hf
    refine ⟨{ v with cache := c' }, ?_, c', rfl, hc'⟩
    simp only [Volume.onCache, zoom, hrun]
  · trivial
  · obtain ⟨a, c', hrun, hQ, hc'⟩ := hf
    refine ⟨a, { v with cache := c' }, ?_, hQ, c', rfl, hc'⟩
    simp only [Volume.onCache, zoom, hrun]

/-- Reading the volume itself: everything but its cache is known. -/
theorem reads_get {α β : Type} {Q : α → β → Prop} {k : Volume → VolumeM α}
    {e : Except (Stop Fault) β}
    (h : ∀ c, Reads (v.Same g) Q (k { v with cache := c }) e) :
    Reads (v.Same g) Q (get >>= k) e := by
  rintro _ ⟨c, rfl, hc⟩
  exact h c _ ⟨c, rfl, hc⟩

theorem reader (h : VolRep v g m data) : g.SmallReader v.anodes := by
  rw [h.anodes]
  exact h.rb.reader _

theorem getAnodeChain (h : VolRep v g m data) (nr : ℕ) :
    Reads (v.Same g) Eq (Volume.getAnodeChain nr) (m.getChain nr) :=
  reads_get fun _ => onCache (h.holds.getChain h.reader nr)

theorem listDirByAnode (h : VolRep v g m data) (nr : ℕ) :
    Reads (v.Same g) Holds.Lists (Volume.listDirByAnode nr) (m.listEntries nr) :=
  reads_get fun _ => onCache (h.holds.listEntries h.reader nr)

theorem resolveDirPath (h : VolRep v g m data) (path : Name) :
    Reads (v.Same g) Eq (Volume.resolveDirPath path) (m.resolveDirPath path) :=
  reads_get fun _ => onCache (h.holds.resolveDirParts h.reader _ _)

theorem listDir (h : VolRep v g m data) (path : Name) :
    Reads (v.Same g) Holds.Lists (Volume.listDir path) (m.listDir path) := by
  unfold Volume.listDir Meta.listDir
  refine (h.resolveDirPath path).bind ?_
  rintro nr _ rfl -
  exact h.listDirByAnode nr

theorem lookup (h : VolRep v g m data) (path : Name) :
    Reads (v.Same g) Holds.ShowsOpt (Volume.lookup path) (m.lookupPath path) :=
  reads_get fun _ => onCache (h.holds.resolveParts h.reader _ _)

/-- The block loop, in the data area. -/
theorem readBlocksData (h : VolRep v g m data) (blks : List ℕ) : ∀ remaining : ℕ,
    readData g data blks remaining = .error .stuck ∨
      readData g data blks remaining = raised (Volume.readBlocksData v.dev blks remaining) := by
  induction blks with
  | nil => intro remaining; exact Or.inr rfl
  | cons blk blks ih =>
      intro remaining
      unfold readData Volume.readBlocksData
      by_cases hzero : remaining = 0
      · rw [if_pos hzero, if_pos hzero]
        exact Or.inr rfl
      · rw [if_neg hzero, if_neg hzero]
        by_cases hrange : blk < g.dataStart ∨ g.disksize ≤ blk
        · rw [if_pos hrange]
          exact Or.inl rfl
        · rw [if_neg hrange]
          have htotal := h.total
          have hread : v.dev.readBlock blk = .ok (data blk).val := by
            have hone : v.dev.readBlock blk = v.dev.readBlocks blk 1 (1 * 512) := rfl
            rw [hone, Device.readBlocks_ok (by omega), Device.bytesAt,
              ← h.data blk (by omega) (by omega)]
            simp
          rw [hread]
          rcases ih (remaining - min remaining SECTOR_SIZE) with hs | hs
          · left
            simp only [hs]
            rfl
          · right
            simp only [hs, ok_bind]
            cases Volume.readBlocksData v.dev blks (remaining - min remaining SECTOR_SIZE) <;> rfl

/-- A result of the code as a reader's. -/
theorem reads_raised {σ α : Type} {I : σ → Prop} (e : Except Fault α) :
    Reads I Eq (liftM e : EStateM Fault σ α) (raised e) := by
  cases e with
  | ok a => exact reads_pure rfl
  | error f => exact reads_throw

theorem readFileData (h : VolRep v g m data) (nr size : ℕ) :
    Reads (v.Same g) Eq (Volume.readFileData nr size) (m.readFileData g data nr size) := by
  unfold Volume.readFileData Meta.readFileData
  refine (h.getAnodeChain nr).bind ?_
  rintro chain _ rfl -
  refine reads_get fun c => ?_
  rcases h.readBlocksData (AnodeReader.chainBlocks chain) size with hs | hs
  · rw [hs]
    exact reads_stuck
  · rw [hs]
    exact reads_raised _

theorem readFile (h : VolRep v g m data) (path : Name) :
    Reads (v.Same g) Eq (Volume.readFile path) (m.readFile g data path) := by
  unfold Volume.readFile Meta.readFile
  refine (h.lookup path).bind ?_
  rintro _ e rfl -
  cases e with
  | none => exact reads_throw
  | some e =>
      have hdir : e.toDirEntry.isDir = e.isDir := rfl
      simp only [Option.map_some, hdir]
      split
      · exact reads_throw
      · exact h.readFileData e.anode.toNat e.fileSize

end VolRep

end Pfs3
