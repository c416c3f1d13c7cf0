import Pfs3.Model.Cmd
import Pfs3.Store.Cache
import Pfs3.Store.Image

/-!
# Readers give one answer

On any device, whatever it holds, a reader of an opened volume returns a value or an error
and never panics, and it returns the same each time: the cache does not matter.
-/

namespace Pfs3

open ByteList BlockCache Stop

/-! ## Steady readers -/

/-- A `Result` as a specification. -/
def answered {α : Type} : Except Error α → Except (Stop Fault) α
  | .ok a => .ok a
  | .error e => .error (.raise (.err e))

/-- From every state with `I` the reader gives the same answer. -/
def Steady {σ α : Type} (I : σ → Prop) (m : EStateM Fault σ α) : Prop :=
  ∃ r, Reads I Eq m (answered r)

section Steady

variable {σ α β : Type} {I : σ → Prop} {m : EStateM Fault σ α}

theorem steady_pure (a : α) : Steady I (pure a : EStateM Fault σ α) := ⟨.ok a, reads_pure rfl⟩

theorem steady_fail (e : Error) : Steady I (fail e : EStateM Fault σ α) := ⟨.error e, reads_throw⟩

theorem Steady.bind {k : α → EStateM Fault σ β} (h : Steady I m) (hk : ∀ a, Steady I (k a)) :
    Steady I (m >>= k) := by
  obtain ⟨r, hr⟩ := h
  cases r with
  | error e =>
      have hseq : Reads I Eq (m >>= k) (answered (.error e) >>= fun _ : α =>
          answered (.error e : Except Error β)) :=
        hr.bind fun _ _ _ hcontra => by cases hcontra
      exact ⟨.error e, hseq⟩
  | ok a =>
      obtain ⟨r', hr'⟩ := hk a
      exact ⟨r', hr.seq hr'⟩

end Steady

theorem Device.readBlocks_ne_panic (d : Device) (block count bufLen : ℕ) :
    ∃ r, raised (d.readBlocks block count bufLen) = answered r := by
  unfold Device.readBlocks
  split
  · exact ⟨.error _, rfl⟩
  · split
    · exact ⟨.error _, rfl⟩
    · exact ⟨.ok _, rfl⟩

/-! ## Readers on the cache -/

/-- The cache holds what the device holds, block by block. -/
def BlockCache.Mirrors (c : BlockCache) (dev : Device) (rbs : ℕ) : Prop :=
  c.Coherent dev rbs fun _ => True

section Cache

variable {dev : Device} {rbs : ℕ}

theorem steady_readReserved (block : ℕ) :
    Steady (fun c => c.Mirrors dev rbs) (readReserved dev block rbs) := by
  obtain ⟨r, hr⟩ := dev.readBlocks_ne_panic block (max (rbs / SECTOR_SIZE) 1) rbs
  refine ⟨r, ?_⟩
  rw [← hr]
  exact readReserved_reads trivial

/-- What opening a volume makes sure of. -/
structure AnodeReader.Valid (r : AnodeReader) : Prop where
  index : r.indexPerBlock ≠ 0
  anodes : r.anodesPerBlock ≠ 0

namespace AnodeReader

variable {r : AnodeReader}

theorem steady_readIndexEntry (block offset : ℕ) :
    Steady (fun c => c.Mirrors dev r.reservedBlksize) (r.readIndexEntry block offset dev) := by
  refine (steady_readReserved block).bind fun data => ?_
  dsimp only
  split
  · exact steady_pure 0
  · exact steady_pure _

theorem steady_resolveAnodeBlock (h : r.Valid) (seqnr : ℕ) :
    Steady (fun c => c.Mirrors dev r.reservedBlksize) (r.resolveAnodeBlock seqnr dev) := by
  unfold resolveAnodeBlock
  dsimp only
  rw [if_neg h.index]
  split
  · split
    · exact steady_pure 0
    · refine (steady_readIndexEntry _ _).bind fun idxBlk => ?_
      split
      · exact steady_pure 0
      · exact steady_readIndexEntry _ _
  · split
    · exact steady_pure 0
    · exact steady_readIndexEntry _ _

theorem steady_getAnode (h : r.Valid) (anodenr : ℕ) :
    Steady (fun c => c.Mirrors dev r.reservedBlksize) (r.getAnode anodenr dev) := by
  unfold getAnode
  rw [if_neg fun hz => h.anodes hz.2]
  refine (steady_resolveAnodeBlock h _).bind fun blkNr => ?_
  split
  · exact steady_fail _
  · refine (steady_readReserved _).bind fun data => ?_
    split
    · exact steady_fail _
    · split
      · exact steady_fail _
      · dsimp only
        split
        · exact steady_fail _
        · exact steady_pure _

theorem steady_getChainLoop (h : r.Valid) (n : ℕ) : ∀ (seen : List ℕ) (nr : ℕ),
    Steady (fun c => c.Mirrors dev r.reservedBlksize) (r.getChainLoop dev n seen nr) := by
  induction n with
  | zero =>
      intro seen nr
      unfold getChainLoop
      split
      · exact steady_pure []
      · split
        · exact steady_fail _
        · exact steady_fail _
  | succ n ih =>
      intro seen nr
      unfold getChainLoop
      split
      · exact steady_pure []
      · split
        · exact steady_fail _
        · refine (steady_getAnode h nr).bind fun an => ?_
          exact (ih (nr :: seen) an.next).bind fun rest => steady_pure _

theorem steady_getChain (h : r.Valid) (anodenr : ℕ) :
    Steady (fun c => c.Mirrors dev r.reservedBlksize) (r.getChain anodenr dev) :=
  steady_getChainLoop h _ _ _

theorem steady_listBlocks (blks : List ℕ) :
    Steady (fun c => c.Mirrors dev r.reservedBlksize) (r.listBlocks dev blks) := by
  induction blks with
  | nil => exact steady_pure []
  | cons blk rest ih =>
      exact (steady_readReserved blk).bind fun data => ih.bind fun _ => steady_pure _

theorem steady_listEntries (h : r.Valid) (dirAnode : ℕ) :
    Steady (fun c => c.Mirrors dev r.reservedBlksize) (r.listEntries dirAnode dev) :=
  (steady_getChain h dirAnode).bind fun _ => steady_listBlocks _

theorem steady_lookup (h : r.Valid) (dirAnode : ℕ) (name : Name) :
    Steady (fun c => c.Mirrors dev r.reservedBlksize) (r.lookup dirAnode name dev) := by
  refine (steady_listEntries h dirAnode).bind fun entries => ?_
  split
  · exact steady_pure _
  · exact steady_fail _

/-- The answer of `lookupLast`: `NotFound` is no error. -/
def answerLast : Except Error DirEntry → Except Error (Option DirEntry)
  | .ok entry => .ok (some entry)
  | .error (.notFound _) => .ok none
  | .error e => .error e

theorem steady_lookupLast (h : r.Valid) (dirAnode : ℕ) (name : Name) :
    Steady (fun c => c.Mirrors dev r.reservedBlksize) (r.lookupLast dirAnode name dev) := by
  obtain ⟨res, hres⟩ := @steady_lookup dev r h dirAnode name
  refine ⟨answerLast res, fun c hc => ?_⟩
  cases res with
  | ok entry =>
      obtain ⟨_, c', hrun, rfl, hc'⟩ := hres.ok hc
      exact ⟨_, c', by simp only [lookupLast, hrun], rfl, hc'⟩
  | error e =>
      obtain ⟨c', hrun, hc'⟩ := hres.raise hc
      cases e with
      | notFound what => exact ⟨none, c', by simp only [lookupLast, hrun], rfl, hc'⟩
      | _ => exact ⟨c', by simp only [lookupLast, hrun], hc'⟩

theorem steady_resolveParts (h : r.Valid) (parts : List Name) : ∀ dirAnode : ℕ,
    Steady (fun c => c.Mirrors dev r.reservedBlksize) (r.resolveParts dev dirAnode parts) := by
  induction parts with
  | nil => exact fun _ => steady_pure none
  | cons part rest ih =>
      intro dirAnode
      rcases rest with _ | ⟨part', rest⟩
      · exact steady_lookupLast h dirAnode part
      · refine (steady_lookup h dirAnode part).bind fun entry => ?_
        split
        · exact ih _
        · exact steady_fail _

end AnodeReader

namespace BitmapReader

variable {r : BitmapReader}

theorem steady_getBitmapBlock (h : r.indexPerBlock ≠ 0) (seqnr : ℕ) :
    Steady (fun c => c.Mirrors dev r.reservedBlksize) (r.getBitmapBlock seqnr dev) := by
  unfold getBitmapBlock
  dsimp only
  rw [if_neg h]
  split
  · exact steady_pure none
  · refine (steady_readReserved _).bind fun data => ?_
    split
    · exact steady_pure none
    · split
      · exact steady_pure none
      · exact steady_pure _

theorem steady_countFreeLoop (h : r.indexPerBlock ≠ 0) (n : ℕ) : ∀ seqnr remaining free : ℕ,
    Steady (fun c => c.Mirrors dev r.reservedBlksize)
      (r.countFreeLoop dev n seqnr remaining free) := by
  induction n with
  | zero => exact fun _ _ free => steady_pure free
  | succ n ih =>
      intro seqnr remaining free
      unfold countFreeLoop
      split
      · exact steady_pure free
      · refine (steady_getBitmapBlock h seqnr).bind fun blk => ?_
        split
        · exact steady_pure free
        · exact (steady_readReserved _).bind fun data => ih _ _ _

end BitmapReader

end Cache

/-! ## Readers of a volume -/

/-- What `Volume.fromDevice` makes sure of, on any device. -/
structure Volume.Opened (v : Volume) : Prop where
  cache : v.cache.Mirrors v.dev v.rootblock.reservedBlksize
  anodes : v.anodes.Valid
  anodesRbs : v.anodes.reservedBlksize = v.rootblock.reservedBlksize
  bitmap : v.bitmap.indexPerBlock ≠ 0
  bitmapRbs : v.bitmap.reservedBlksize = v.rootblock.reservedBlksize

/-- The same volume up to its cache. -/
def Volume.Like (v v' : Volume) : Prop :=
  ∃ c, v' = { v with cache := c } ∧ c.Mirrors v.dev v.rootblock.reservedBlksize

namespace Volume

variable {v : Volume}

/-- The end of `fromDevice`, once the rootblock is parsed. -/
theorem opened_of_rootblock {dev : Device} {rootblock : Rootblock}
    (h : (do
      validateRbs rootblock
      if rootblock.hasExtension then
        match readReserved dev rootblock.extension rootblock.reservedBlksize .new with
        | .error f _ => .error f
        | .ok data cache => do
            let ext ← RootblockExt.parse data
            pure ⟨dev, cache, rootblock, some ext, .new rootblock (some ext), .new rootblock⟩
      else pure ⟨dev, .new, rootblock, none, .new rootblock none, .new rootblock⟩) = Except.ok v) :
    v.Opened := by
  obtain ⟨⟨⟩, hvalid, h⟩ := of_bind_ok h
  have hrbs : 64 ≤ rootblock.reservedBlksize := by
    unfold validateRbs at hvalid
    split at hvalid
    · cases hvalid
    · omega
  have hindex : rootblock.indexPerBlock ≠ 0 := by
    unfold Rootblock.indexPerBlock
    omega
  have hanodes : rootblock.anodesPerBlock ≠ 0 := by
    unfold Rootblock.anodesPerBlock ANODE_BLOCK_HEADER_SIZE ANODE_SIZE
    omega
  split at h
  · split at h
    · cases h
    · rename_i data cache hread
      obtain ⟨ext, -, h⟩ := of_bind_ok h
      cases h
      obtain ⟨r, hr⟩ := @steady_readReserved dev rootblock.reservedBlksize rootblock.extension
      have hcache := hr .new coherent_new
      cases r with
      | error e =>
          obtain ⟨c', hrun, -⟩ := hcache
          rw [hread] at hrun
          cases hrun
      | ok b =>
          obtain ⟨_, c', hrun, -, hc'⟩ := hcache
          rw [hread] at hrun
          cases hrun
          exact ⟨hc', ⟨hindex, hanodes⟩, rfl, hindex, rfl⟩
  · cases h
    exact ⟨coherent_new, ⟨hindex, hanodes⟩, rfl, hindex, rfl⟩

theorem opened_of_fromDevice {dev : Device} (h : fromDevice dev = .ok v) : v.Opened := by
  unfold fromDevice at h
  obtain ⟨buf, -, h⟩ := of_bind_ok h
  obtain ⟨rb, -, h⟩ := of_bind_ok h
  dsimp only at h
  split at h
  · obtain ⟨bigBuf, -, h⟩ := of_bind_ok h
    obtain ⟨rootblock, -, h⟩ := of_bind_ok h
    exact opened_of_rootblock h
  · exact opened_of_rootblock h

theorem Opened.like (h : v.Opened) : v.Like v := ⟨v.cache, rfl, h.cache⟩

theorem steady_onCache {α : Type} {f : Device → CacheM α}
    (h : Steady (fun c => c.Mirrors v.dev v.rootblock.reservedBlksize) (f v.dev)) :
    Steady v.Like (onCache f) := by
  obtain ⟨r, hr⟩ := h
  refine ⟨r, ?_⟩
  rintro _ ⟨c, rfl, hc⟩
  cases r with
  | error e =>
      obtain ⟨c', hrun, hc'⟩ := hr.raise hc
      exact ⟨{ v with cache := c' }, by simp only [onCache, zoom, hrun], c', rfl, hc'⟩
  | ok a =>
      obtain ⟨_, c', hrun, rfl, hc'⟩ := hr.ok hc
      exact ⟨_, { v with cache := c' }, by simp only [onCache, zoom, hrun], rfl, c', rfl, hc'⟩

theorem steady_get {α : Type} {k : Volume → VolumeM α}
    (h : Steady v.Like (k v)) (hk : ∀ c, k { v with cache := c } = k v) :
    Steady v.Like (get >>= k) := by
  obtain ⟨r, hr⟩ := h
  refine ⟨r, ?_⟩
  rintro _ ⟨c, rfl, hc⟩
  have hrun := hr { v with cache := c } ⟨c, rfl, hc⟩
  rw [← hk c] at hrun
  exact hrun

theorem Opened.steady_getAnodeChain (h : v.Opened) (anodenr : ℕ) :
    Steady v.Like (getAnodeChain anodenr) :=
  steady_get (steady_onCache (h.anodesRbs ▸ AnodeReader.steady_getChain h.anodes anodenr))
    fun _ => rfl

theorem Opened.steady_listDirByAnode (h : v.Opened) (dirAnode : ℕ) :
    Steady v.Like (listDirByAnode dirAnode) :=
  steady_get (steady_onCache (h.anodesRbs ▸ AnodeReader.steady_listEntries h.anodes dirAnode))
    fun _ => rfl

theorem Opened.steady_lookup (h : v.Opened) (path : Name) : Steady v.Like (lookup path) :=
  steady_get (steady_onCache (f := fun dev => v.anodes.resolveParts dev ANODE_ROOTDIR
    (pathParts path)) (h.anodesRbs ▸ AnodeReader.steady_resolveParts h.anodes _ _)) fun _ => rfl

theorem steady_readBlocksData (dev : Device) (blks : List ℕ) : ∀ remaining : ℕ,
    ∃ r, raised (readBlocksData dev blks remaining) = answered r := by
  induction blks with
  | nil => exact fun _ => ⟨.ok [], rfl⟩
  | cons blk rest ih =>
      intro remaining
      unfold readBlocksData
      split
      · exact ⟨.ok [], rfl⟩
      · obtain ⟨r, hr⟩ := dev.readBlocks_ne_panic blk 1 SECTOR_SIZE
        obtain ⟨r', hr'⟩ := ih (remaining - min remaining SECTOR_SIZE)
        unfold Device.readBlock
        rcases hread : dev.readBlocks blk 1 SECTOR_SIZE with f | buf
        · rw [hread] at hr
          exact ⟨r, hr⟩
        · rcases htail : readBlocksData dev rest (remaining - min remaining SECTOR_SIZE) with f | b
          · rw [htail] at hr'
            refine ⟨r', ?_⟩
            rw [← hr']
            simp only [bind, Except.bind, htail]
          · refine ⟨.ok (buf.take (min remaining SECTOR_SIZE) ++ b), ?_⟩
            simp only [bind, Except.bind, htail]
            rfl

theorem Opened.steady_readFileData (h : v.Opened) (anodenr size : ℕ) :
    Steady v.Like (readFileData anodenr size) := by
  refine (h.steady_getAnodeChain anodenr).bind fun chain => ?_
  refine steady_get (k := fun v => liftM (readBlocksData v.dev (AnodeReader.chainBlocks chain) size))
    ?_ fun _ => rfl
  obtain ⟨r, hr⟩ := steady_readBlocksData v.dev (AnodeReader.chainBlocks chain) size
  refine ⟨r, ?_⟩
  rw [← hr]
  intro s hs
  rcases readBlocksData v.dev (AnodeReader.chainBlocks chain) size with f | b
  · exact ⟨s, rfl, hs⟩
  · exact ⟨b, s, rfl, rfl, hs⟩

theorem Opened.steady_bitmapCountFree (h : v.Opened) : Steady v.Like bitmapCountFree :=
  steady_get (steady_onCache (h.bitmapRbs ▸ BitmapReader.steady_countFreeLoop h.bitmap _ _ _ _))
    fun _ => rfl

theorem steady_reservedCountFree : Steady v.Like reservedCountFree := by
  unfold reservedCountFree
  refine steady_get ?_ fun _ => rfl
  dsimp only
  obtain ⟨r, hr⟩ := v.dev.readBlocks_ne_panic v.rootblock.firstreserved v.rootblock.rblkcluster
    (v.rootblock.rblkcluster * SECTOR_SIZE)
  refine Steady.bind ⟨r, ?_⟩ fun cluster => steady_pure _
  rw [← hr]
  intro s hs
  rcases v.dev.readBlocks v.rootblock.firstreserved v.rootblock.rblkcluster
    (v.rootblock.rblkcluster * SECTOR_SIZE) with f | b
  · exact ⟨s, rfl, hs⟩
  · exact ⟨b, s, rfl, rfl, hs⟩

end Volume

end Pfs3
