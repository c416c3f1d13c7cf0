import Pfs3.Checked.Parse
import Pfs3.Store.Counts

/-!
# The readers with their checks

The readers of the cache, of anodes, of the bitmap and of directories with every operation that
could panic spelled out.  On any device a reader does what its unchecked form does, except that it
panics when the cache's counter of reads comes to its end.
-/

namespace Pfs3

open ByteList BlockCache Stop

/-! ## Guarded computations -/

/-- From a state with `I`, `m'` does what `m` does: its values have `Q`, there are at least `n`
more reads, and their counter stays in `u64`.  Or it panics, with the counter at the end of `u64`. -/
def Guarded {σ α : Type} (I : σ → Prop) (reads : σ → ℕ) (n : ℕ) (Q : α → Prop)
    (m' m : EStateM Fault σ α) : Prop :=
  ∀ s, I s →
    (m' s = m s ∧ ∀ a s', m s = .ok a s' →
      I s' ∧ Q a ∧ reads s + n ≤ reads s' ∧ (reads s < U64 → reads s' < U64)) ∨
    ∃ s', m' s = .error .panic s' ∧ U64 ≤ reads s' + 1

section Guarded

variable {σ α β : Type} {I : σ → Prop} {reads : σ → ℕ} {n k : ℕ} {Q Q' : α → Prop} {R : β → Prop}
variable {m m' : EStateM Fault σ α}

/-- A check that succeeds. -/
theorem lift_ok_bind (a : α) (f : α → EStateM Fault σ β) :
    ((liftM (Except.ok a : Except Fault α) : EStateM Fault σ α) >>= f) = f a := rfl

theorem guarded_pure {a : α} (hQ : Q a) :
    Guarded I reads 0 Q (pure a : EStateM Fault σ α) (pure a) := by
  refine fun s hs => Or.inl ⟨rfl, fun a' s' h => ?_⟩
  injection h with ha hs'
  subst ha hs'
  exact ⟨hs, hQ, le_rfl, id⟩

theorem guarded_fail {e : Error} : Guarded I reads n Q (fail e : EStateM Fault σ α) (fail e) :=
  fun _ _ => Or.inl ⟨rfl, fun _ _ h => by cases h⟩

/-- A computation without a state. -/
theorem guarded_lift {e : Except Fault α} (hQ : ∀ a, e = .ok a → Q a) :
    Guarded I reads 0 Q (liftM e : EStateM Fault σ α) (liftM e) := by
  cases e with
  | error f => exact fun _ _ => Or.inl ⟨rfl, fun _ _ h => by cases h⟩
  | ok a => exact guarded_pure (hQ a rfl)

theorem Guarded.mono (h : Guarded I reads n Q m' m) (hk : k ≤ n) (hQ : ∀ a, Q a → Q' a) :
    Guarded I reads k Q' m' m := by
  intro s hs
  rcases h s hs with ⟨heq, hall⟩ | hpanic
  · refine Or.inl ⟨heq, fun a s' hrun => ?_⟩
    obtain ⟨hI, ha, hreads, hlt⟩ := hall a s' hrun
    exact ⟨hI, hQ a ha, by omega, hlt⟩
  · exact Or.inr hpanic

theorem Guarded.add {f f' : α → EStateM Fault σ β} (h : Guarded I reads n Q m' m)
    (hf : ∀ a, Q a → Guarded I reads k R (f' a) (f a)) :
    Guarded I reads (n + k) R (m' >>= f') (m >>= f) := by
  intro s hs
  rcases h s hs with ⟨heq, hall⟩ | ⟨s', hpanic, hend⟩
  · cases hm : m s with
    | error e s' =>
        rw [hm] at heq
        rw [bind_of_error hm, bind_of_error heq]
        exact Or.inl ⟨rfl, fun _ _ hcon => by cases hcon⟩
    | ok a s' =>
        obtain ⟨hI, ha, hreads, hlt⟩ := hall a s' hm
        rw [hm] at heq
        rw [bind_of_ok hm, bind_of_ok heq]
        rcases hf a ha s' hI with ⟨heq', hall'⟩ | hpanic
        · refine Or.inl ⟨heq', fun b s'' hrun => ?_⟩
          obtain ⟨hI', hb, hreads', hlt'⟩ := hall' b s'' hrun
          exact ⟨hI', hb, by omega, fun h => hlt' (hlt h)⟩
        · exact Or.inr hpanic
  · rw [bind_of_error hpanic]
    exact Or.inr ⟨s', rfl, hend⟩

/-- Only the reads of the first part counted. -/
theorem Guarded.bind {f f' : α → EStateM Fault σ β} (h : Guarded I reads n Q m' m)
    (hf : ∀ a, Q a → Guarded I reads 0 R (f' a) (f a)) :
    Guarded I reads n R (m' >>= f') (m >>= f) := h.add hf

/-- Only the reads of the second part counted. -/
theorem Guarded.after {f f' : α → EStateM Fault σ β} (h : Guarded I reads 0 Q m' m)
    (hf : ∀ a, Q a → Guarded I reads k R (f' a) (f a)) :
    Guarded I reads k R (m' >>= f') (m >>= f) := (h.add hf).mono (Nat.le_add_left k 0) fun _ => id

/-- From a state with `I`, `m'` does what `m` does, or panics with the counter of reads at the end
of `u64`. -/
def Agrees {σ α : Type} (I : σ → Prop) (reads : σ → ℕ) (m' m : EStateM Fault σ α) : Prop :=
  ∀ s, I s → m' s = m s ∨ ∃ s', m' s = .error .panic s' ∧ U64 ≤ reads s' + 1

theorem Guarded.agrees (h : Guarded I reads n Q m' m) : Agrees I reads m' m :=
  fun s hs => (h s hs).imp And.left id

theorem Guarded.agrees_bind {f f' : α → EStateM Fault σ β} (h : Guarded I reads n Q m' m)
    (hf : ∀ a, Q a → Agrees I reads (f' a) (f a)) : Agrees I reads (m' >>= f') (m >>= f) := by
  intro s hs
  rcases h s hs with ⟨heq, hall⟩ | ⟨s', hpanic, hend⟩
  · cases hm : m s with
    | error e s' =>
        rw [hm] at heq
        rw [bind_of_error hm, bind_of_error heq]
        exact Or.inl rfl
    | ok a s' =>
        obtain ⟨hI, ha, -⟩ := hall a s' hm
        rw [hm] at heq
        rw [bind_of_ok hm, bind_of_ok heq]
        exact hf a ha s' hI
  · rw [bind_of_error hpanic]
    exact Or.inr ⟨s', rfl, hend⟩

/-- After a reader that gives one answer. -/
theorem Steady.agrees_bind {f f' : α → EStateM Fault σ β} (hm : Steady I m)
    (h : Agrees I reads m' m) (hf : ∀ a, Agrees I reads (f' a) (f a)) :
    Agrees I reads (m' >>= f') (m >>= f) := by
  obtain ⟨res, hres⟩ := hm
  intro s hs
  rcases h s hs with heq | ⟨s', hpanic, hend⟩
  · cases res with
    | error e =>
        obtain ⟨s', hrun, -⟩ := hres.raise hs
        rw [bind_of_error hrun, bind_of_error (heq.trans hrun)]
        exact Or.inl rfl
    | ok b =>
        obtain ⟨a, s', hrun, -, hI⟩ := hres.ok hs
        rw [bind_of_ok hrun, bind_of_ok (heq.trans hrun)]
        exact hf a s' hI
  · rw [bind_of_error hpanic]
    exact Or.inr ⟨s', rfl, hend⟩

theorem Guarded.weaken (h : Guarded I reads n Q m' m) : Guarded I reads 0 Q m' m :=
  h.mono (Nat.zero_le n) fun _ => id

/-- A reader that gives one answer gives the answer that it was seen to give. -/
theorem Guarded.known {a : α} (h : Guarded I reads n Q m' m)
    (hm : Reads I Eq m (.ok a)) : Guarded I reads n (· = a) m' m := by
  intro s hs
  rcases h s hs with ⟨heq, hall⟩ | hpanic
  · refine Or.inl ⟨heq, fun b s' hrun => ?_⟩
    obtain ⟨hI, -, hcount⟩ := hall b s' hrun
    obtain ⟨_, s'', hrun', rfl, -⟩ := hm.ok hs
    injection hrun.symm.trans hrun' with hb _
    exact ⟨hI, hb, hcount⟩
  · exact Or.inr hpanic

end Guarded

namespace Checked

/-! ## Device and cache -/

/-- `read_blocks` of a device whose partition starts at byte `offset` of the file. -/
def readBlocks (offset : ℕ) (dev : Device) (block count bufLen : ℕ) : Except Fault Bytes := do
  let pos ← mulU64 block SECTOR_SIZE
  let _ ← addU64 offset pos
  let len ← mulU64 count SECTOR_SIZE
  if bufLen < len then throw (.err (.tooShort "read buffer"))
  else dev.readBlocks block count bufLen

/-- Read a reserved-area block, returning cached data if available. -/
def readReserved (offset : ℕ) (dev : Device) (block reservedBlksize : ℕ) : CacheM Bytes := fun c =>
  match addU64 c.generation 1 with
  | .error f => .error f c
  | .ok g =>
      let c := { c with generation := g }
      match c.entries.lookup block with
      | some e =>
          .ok e.data
            { c with
              entries := c.entries.map fun p =>
                if p.1 = block then (p.1, { p.2 with generation := g }) else p }
      | none =>
          match readBlocks offset dev block (max (reservedBlksize / SECTOR_SIZE) 1)
            reservedBlksize with
          | .error f => .error f c
          | .ok buf =>
              let c := c.evict
              .ok buf { c with entries := (block, ⟨buf, g⟩) :: c.entries }

/-- A partition that starts inside of a file. -/
def IsOffset (offset : ℕ) : Prop := offset ≤ 2 ^ 63

variable {offset : ℕ} {dev : Device} {rbs : ℕ}

theorem readBlocks_eq (ho : IsOffset offset) {block count : ℕ} (hblock : block < 2 ^ 40)
    (hcount : count < 2 ^ 32) (bufLen : ℕ) :
    readBlocks offset dev block count bufLen = dev.readBlocks block count bufLen := by
  have hU : U64 = 18446744073709551616 := rfl
  have hs : SECTOR_SIZE = 512 := rfl
  unfold IsOffset at ho
  unfold readBlocks
  rw [hs, mulU64_ok (by omega), ok_bind, addU64_ok (by omega), ok_bind, mulU64_ok (by omega),
    ok_bind]
  split
  · rename_i hshort
    unfold Device.readBlocks
    rw [hs, if_pos hshort]
    rfl
  · rfl

/-- The readings of the cache. -/
abbrev Counted (dev : Device) (rbs n : ℕ) {α : Type} (Q : α → Prop) (m' m : CacheM α) : Prop :=
  Guarded (fun c => c.Mirrors dev rbs) BlockCache.generation n Q m' m

/-- A read is counted. -/
theorem generation_readReserved {c c' : BlockCache} {block : ℕ} {data : Bytes}
    (h : BlockCache.readReserved dev block rbs c = .ok data c') :
    c'.generation = c.generation + 1 := by
  have hevict : ∀ c : BlockCache, c.evict.generation = c.generation := by
    intro c
    unfold BlockCache.evict BlockCache.invalidate
    split
    · split
      · rfl
      · rfl
    · rfl
  unfold BlockCache.readReserved at h
  dsimp only at h
  split at h
  · injection h with _ h
    rw [← h]
  · split at h
    · cases h
    · injection h with _ h
      rw [← h]
      exact hevict { c with generation := c.generation + 1 }

/-- A read before the end of the counter. -/
theorem readReserved_eq (ho : IsOffset offset) {block : ℕ} (hblock : block < 2 ^ 40)
    (hrbs : rbs < 2 ^ 16) {c : BlockCache} (hend : c.generation + 1 < U64) :
    readReserved offset dev block rbs c = BlockCache.readReserved dev block rbs c := by
  have hcount : max (rbs / SECTOR_SIZE) 1 < 2 ^ 32 :=
    max_lt (lt_of_le_of_lt (Nat.div_le_self _ _) (by omega)) (by omega)
  unfold readReserved BlockCache.readReserved
  rw [addU64_ok hend]
  dsimp only
  rewrite [readBlocks_eq ho hblock hcount]
  rfl

theorem guarded_readReserved (ho : IsOffset offset) {block : ℕ} (hblock : block < 2 ^ 40)
    (hrbs : rbs < 2 ^ 16) :
    Counted dev rbs 1 (fun data => data.length = rbs) (readReserved offset dev block rbs)
      (BlockCache.readReserved dev block rbs) := by
  intro c hc
  by_cases hend : c.generation + 1 < U64
  · left
    constructor
    · exact readReserved_eq ho hblock hrbs hend
    · intro data c' hrun
      have hreads := @readReserved_reads dev rbs (fun _ => True) block trivial c hc
      cases hdev : dev.readReserved rbs block with
      | error f =>
          rw [hdev] at hreads
          obtain ⟨c'', hrun', -⟩ := hreads
          cases hrun.symm.trans hrun'
      | ok buf =>
          rw [hdev] at hreads
          obtain ⟨_, c'', hrun', rfl, hc''⟩ := hreads
          injection hrun.symm.trans hrun' with hdata hstate
          subst hdata hstate
          have hgen : c'.generation = c.generation + 1 := generation_readReserved hrun
          exact ⟨hc'', Device.length_of_readBlocks hdev, hgen.ge, fun _ => hgen ▸ hend⟩
  · right
    have hpanic : addU64 c.generation 1 = .error .panic := if_neg hend
    refine ⟨c, ?_, by omega⟩
    unfold readReserved
    rw [hpanic]

/-! ## Anodes -/

def readIndexEntry (offset : ℕ) (r : AnodeReader) (block entry : ℕ) (dev : Device) : CacheM ℕ := do
  let data ← readReserved offset dev block r.reservedBlksize
  let step ← mulU64 entry 4
  let off ← addU64 INDEX_BLOCK_HEADER_SIZE step
  let entryEnd ← addU64 off 4
  if data.length < entryEnd then pure 0 else liftM (readU32 data off)

/-- Resolve an anode sequence number to its on-disk block number. -/
def resolveAnodeBlock (offset : ℕ) (r : AnodeReader) (seqnr : ℕ) (dev : Device) : CacheM ℕ := do
  let ipb := r.indexPerBlock
  if r.isLarge then do
    let square ← mulU32 ipb ipb
    let superNr ← divide seqnr square
    let rest ← remainder seqnr square
    let idxNr ← divide rest ipb
    let idxOff ← remainder rest ipb
    let superBlk := r.superindex.getD superNr 0
    if superBlk = 0 then pure 0
    else do
      let idxBlk ← readIndexEntry offset r superBlk idxNr dev
      if idxBlk = 0 then pure 0 else readIndexEntry offset r idxBlk idxOff dev
  else do
    let idxNr ← divide seqnr ipb
    let idxOff ← remainder seqnr ipb
    let idxBlk := r.indexblocks.getD idxNr 0
    if idxBlk = 0 then pure 0 else readIndexEntry offset r idxBlk idxOff dev

/-- `AnodeBlockHeader::parse`, whose fields `get_anode` does not use. -/
def parseAnodeBlockHeader (data : Bytes) : Except Fault Unit := do
  if data.length < 16 then throw (.err (.tooShort "anode block header"))
  else do
    let id ← readU16 data 0
    if id ≠ ABLKID then throw (.err (.badBlockId "anode block" ABLKID id))
    else do
      let _ ← readU32 data 4
      let _ ← readU32 data 8
      pure ()

/-- `Anode::parse`. -/
def parseAnode (raw : Bytes) (nr : ℕ) : Except Fault Anode := do
  if raw.length < ANODE_SIZE then throw (.err (.tooShort "anode"))
  else do
    let clustersize ← cursorU32 raw 0
    let blocknr ← cursorU32 raw 4
    let next ← cursorU32 raw 8
    pure ⟨clustersize, blocknr, next, nr⟩

/-- Sequence number and slot of an anode number. -/
def splitNr (r : AnodeReader) (anodenr : ℕ) : Except Fault (ℕ × ℕ) :=
  if r.splitMode then pure (anodenr / 65536, anodenr % 65536)
  else do
    let seqnr ← divide anodenr r.anodesPerBlock
    let slot ← remainder anodenr r.anodesPerBlock
    pure (seqnr, slot)

/-- Look up a single anode by number. -/
def getAnode (offset : ℕ) (r : AnodeReader) (anodenr : ℕ) (dev : Device) : CacheM Anode := do
  let (seqnr, slot) ← splitNr r anodenr
  let blkNr ← resolveAnodeBlock offset r seqnr dev
  if blkNr = 0 then fail (.anodeNotFound anodenr)
  else do
    let data ← readReserved offset dev blkNr r.reservedBlksize
    parseAnodeBlockHeader data
    let step ← mulU64 slot ANODE_SIZE
    let base ← addU64 ANODE_BLOCK_HEADER_SIZE step
    let anodeEnd ← addU64 base ANODE_SIZE
    if data.length < anodeEnd then fail (.anodeNotFound anodenr)
    else do
      let raw ← slice data base anodeEnd
      parseAnode raw anodenr

/-- The loop of `get_chain` with `len` anodes in the chain and `n` rounds left. -/
def getChainLoop (offset : ℕ) (r : AnodeReader) (dev : Device) :
    (n len : ℕ) → (seen : List ℕ) → (nr : ℕ) → CacheM (List Anode)
  | 0, _, _, nr => if nr = ANODE_EOF then pure [] else throw .panic
  | n + 1, len, seen, nr =>
      if nr = ANODE_EOF then pure []
      else if nr ∈ seen then fail (.invalidPartition s!"anode cycle at {nr}")
      else if MAX_CHAIN_LEN ≤ len then fail (.invalidPartition "anode chain too long")
      else do
        let an ← getAnode offset r nr dev
        let rest ← getChainLoop offset r dev n (len + 1) (nr :: seen) an.next
        pure (an :: rest)

/-- Follow an anode chain from `anodenr` to EOF. Detects cycles. -/
def getChain (offset : ℕ) (r : AnodeReader) (anodenr : ℕ) (dev : Device) : CacheM (List Anode) :=
  getChainLoop offset r dev (MAX_CHAIN_LEN + 1) 0 [] anodenr

/-- A reader made for a rootblock whose reserved block size was found large enough. -/
structure Sane (r : AnodeReader) : Prop where
  rbs : r.reservedBlksize < 2 ^ 16
  index : r.indexPerBlock ≠ 0
  index_lt : r.indexPerBlock < 2 ^ 14
  anodes : r.anodesPerBlock ≠ 0
  anodes_lt : r.anodesPerBlock < 2 ^ 16
  indexblocks : ∀ b ∈ r.indexblocks, b < U32
  superindex : ∀ b ∈ r.superindex, b < U32

/-- The fields of an anode as the disk holds them. -/
def InWord (an : Anode) : Prop := an.clustersize < U32 ∧ an.blocknr < U32 ∧ an.next < U32

theorem getD_lt_U32 {l : List ℕ} (h : ∀ b ∈ l, b < U32) (i : ℕ) : l.getD i 0 < U32 := by
  by_cases hi : i < l.length
  · rw [List.getD_eq_getElem?_getD, List.getElem?_eq_getElem hi]
    exact h _ (List.getElem_mem hi)
  · rw [List.getD_eq_getElem?_getD, List.getElem?_eq_none (by omega)]
    decide

variable {r : AnodeReader}

theorem guarded_readIndexEntry (ho : IsOffset offset) (hr : r.reservedBlksize < 2 ^ 16)
    {block entry : ℕ} (hblock : block < U32) (hentry : entry < 2 ^ 32) :
    Counted dev r.reservedBlksize 1 (· < U32) (readIndexEntry offset r block entry dev)
      (r.readIndexEntry block entry dev) := by
  have hU : U64 = 18446744073709551616 := rfl
  have hU' : U32 = 4294967296 := rfl
  have hblock : block < 2 ^ 40 := by omega
  refine Guarded.bind (guarded_readReserved ho hblock hr) fun data hdata => ?_
  unfold INDEX_BLOCK_HEADER_SIZE
  rw [mulU64_ok (by omega), lift_ok_bind, addU64_ok (by omega), lift_ok_bind, addU64_ok (by omega),
    lift_ok_bind]
  dsimp only
  split
  · exact guarded_pure (by decide)
  · rw [readU32_ok (by omega)]
    exact guarded_pure (be32_lt data _)

theorem guarded_resolveAnodeBlock (ho : IsOffset offset) (hr : Sane r) {seqnr : ℕ} :
    Counted dev r.reservedBlksize 0 (· < U32) (resolveAnodeBlock offset r seqnr dev)
      (r.resolveAnodeBlock seqnr dev) := by
  have hU' : U32 = 4294967296 := rfl
  have hipb := hr.index
  have hlt := hr.index_lt
  have hmod := Nat.mod_lt seqnr (Nat.pos_of_ne_zero hipb)
  unfold resolveAnodeBlock AnodeReader.resolveAnodeBlock
  dsimp only
  rw [if_neg hipb]
  have hzero : Counted dev r.reservedBlksize 0 (· < U32) (pure 0) (pure 0) :=
    guarded_pure (by decide)
  split
  · have hsquare : r.indexPerBlock * r.indexPerBlock < 2 ^ 28 :=
      lt_of_lt_of_le (Nat.mul_lt_mul'' hlt hlt) (by decide)
    have hne : r.indexPerBlock * r.indexPerBlock ≠ 0 := Nat.mul_ne_zero hipb hipb
    rw [mulU32_ok (by omega), lift_ok_bind, divide_ok hne, lift_ok_bind, remainder_ok hne,
      lift_ok_bind, divide_ok hipb, lift_ok_bind, remainder_ok hipb, lift_ok_bind]
    have hrest := Nat.mod_lt seqnr (Nat.pos_of_ne_zero hne)
    generalize seqnr % (r.indexPerBlock * r.indexPerBlock) = rest at hrest ⊢
    have hidx : rest / r.indexPerBlock < 2 ^ 32 :=
      lt_of_le_of_lt (Nat.div_le_self _ _) (by omega)
    have hoff : rest % r.indexPerBlock < 2 ^ 32 :=
      (Nat.mod_lt _ (Nat.pos_of_ne_zero hipb)).trans (by omega)
    split
    · exact hzero
    · have hfirst := @guarded_readIndexEntry offset dev r ho hr.rbs _ _
        (getD_lt_U32 hr.superindex (seqnr / (r.indexPerBlock * r.indexPerBlock))) hidx
      refine hfirst.weaken.bind fun idxBlk hblk => ?_
      split
      · exact hzero
      · exact (guarded_readIndexEntry ho hr.rbs hblk hoff).weaken
  · rw [divide_ok hipb, lift_ok_bind, remainder_ok hipb, lift_ok_bind]
    split
    · exact hzero
    · exact (guarded_readIndexEntry ho hr.rbs (getD_lt_U32 hr.indexblocks _) (by omega)).weaken

theorem splitNr_eq (hr : Sane r) (anodenr : ℕ) :
    splitNr r anodenr = .ok (r.splitNr anodenr) ∧ (r.splitNr anodenr).2 < 2 ^ 16 := by
  unfold splitNr AnodeReader.splitNr
  cases r.splitMode with
  | true => exact ⟨rfl, Nat.mod_lt _ (by decide)⟩
  | false =>
      refine ⟨?_, (Nat.mod_lt _ (Nat.pos_of_ne_zero hr.anodes)).trans hr.anodes_lt⟩
      rw [if_neg (by decide), if_neg (by decide), divide_ok hr.anodes, ok_bind,
        remainder_ok hr.anodes, ok_bind]
      rfl

theorem be32_slice {data : Bytes} {a n k : ℕ} (h : k + 4 ≤ n) :
    be32 ((data.drop a).take n) k = be32 data (a + k) := by
  refine be32_eq_of_take ?_
  rw [List.drop_take, List.drop_drop, List.take_take, min_eq_left (by omega)]

theorem parseAnodeBlockHeader_ok {data : Bytes} (hlen : 16 ≤ data.length)
    (hid : be16 data 0 = ABLKID) : parseAnodeBlockHeader data = .ok () := by
  unfold parseAnodeBlockHeader
  rw [if_neg (by omega), readU16_ok (by omega), ok_bind, if_neg (not_not_intro hid),
    readU32_ok (by omega), ok_bind, readU32_ok (by omega), ok_bind]
  rfl

theorem parseAnodeBlockHeader_error {data : Bytes}
    (h : data.length < 16 ∨ be16 data 0 ≠ ABLKID) :
    parseAnodeBlockHeader data = .error (.err (if data.length < 16 then
      .tooShort "anode block header" else .badBlockId "anode block" ABLKID (be16 data 0))) := by
  unfold parseAnodeBlockHeader
  by_cases hshort : data.length < 16
  · rw [if_pos hshort, if_pos hshort]
    rfl
  · rw [if_neg hshort, if_neg hshort, readU16_ok (by omega), ok_bind,
      if_pos (h.resolve_left hshort)]
    rfl

theorem parseAnode_slice {data : Bytes} {base : ℕ} (h : base + ANODE_SIZE ≤ data.length)
    (nr : ℕ) : parseAnode ((data.drop base).take ANODE_SIZE) nr =
      .ok (Anode.parse data base nr) := by
  unfold ANODE_SIZE at h ⊢
  have hlen : ((data.drop base).take 12).length = 12 := by
    rw [List.length_take, List.length_drop]
    omega
  unfold parseAnode ANODE_SIZE
  rw [if_neg (by omega), cursorU32_ok (by omega), ok_bind, cursorU32_ok (by omega), ok_bind,
    cursorU32_ok (by omega), ok_bind, be32_slice (by omega), be32_slice (by omega),
    be32_slice (by omega)]
  rfl

theorem guarded_getAnode (ho : IsOffset offset) (hr : Sane r) (anodenr : ℕ) :
    Counted dev r.reservedBlksize 1 InWord (getAnode offset r anodenr dev)
      (r.getAnode anodenr dev) := by
  have hU : U64 = 18446744073709551616 := rfl
  have hU' : U32 = 4294967296 := rfl
  obtain ⟨hsplit, hslot⟩ := splitNr_eq hr anodenr
  unfold getAnode AnodeReader.getAnode
  rw [if_neg fun hz => hr.anodes hz.2, hsplit, lift_ok_bind]
  generalize r.splitNr anodenr = p at hslot ⊢
  obtain ⟨seqnr, slot⟩ := p
  dsimp only at hslot ⊢
  refine Guarded.after (guarded_resolveAnodeBlock ho hr) fun blkNr hblk => ?_
  have hblock : blkNr < 2 ^ 40 := by omega
  split
  · exact guarded_fail
  · refine Guarded.bind (guarded_readReserved ho hblock hr.rbs) fun data _ => ?_
    by_cases hshort : data.length < 16
    · rw [parseAnodeBlockHeader_error (Or.inl hshort), if_pos hshort, if_pos hshort]
      exact guarded_fail
    · by_cases hid : be16 data 0 ≠ ABLKID
      · rw [parseAnodeBlockHeader_error (Or.inr hid), if_neg hshort, if_neg hshort, if_pos hid]
        exact guarded_fail
      · rw [parseAnodeBlockHeader_ok (by omega) (not_not.mp hid), lift_ok_bind, if_neg hshort,
          if_neg hid]
        unfold ANODE_BLOCK_HEADER_SIZE
        have hstep : slot * ANODE_SIZE < 2 ^ 20 := by
          unfold ANODE_SIZE
          omega
        have hsize : ANODE_SIZE < 2 ^ 20 := by decide
        rw [mulU64_ok (by omega), lift_ok_bind, addU64_ok (by omega), lift_ok_bind,
          addU64_ok (by omega), lift_ok_bind]
        by_cases hend : data.length < 16 + slot * ANODE_SIZE + ANODE_SIZE
        · rw [if_pos hend, if_pos hend]
          exact guarded_fail
        · rw [if_neg hend, if_neg hend, slice_ok (by omega) (by omega), lift_ok_bind,
            Nat.add_sub_cancel_left, parseAnode_slice (by omega)]
          exact guarded_pure ⟨be32_lt _ _, be32_lt _ _, be32_lt _ _⟩

/-- What `get_chain` returns. -/
def IsChain (chain : List Anode) : Prop :=
  chain.length ≤ MAX_CHAIN_LEN ∧ ∀ an ∈ chain, InWord an

theorem guarded_getChainLoop (ho : IsOffset offset) (hr : Sane r) (n : ℕ) :
    ∀ (len : ℕ) (seen : List ℕ) (nr : ℕ), n + len = MAX_CHAIN_LEN →
      Counted dev r.reservedBlksize 0
        (fun chain => chain.length ≤ n ∧ ∀ an ∈ chain, InWord an)
        (getChainLoop offset r dev (n + 1) len seen nr) (r.getChainLoop dev n seen nr) := by
  have hnil : ∀ n, Counted dev r.reservedBlksize 0
      (fun chain => chain.length ≤ n ∧ ∀ an ∈ chain, InWord an) (pure []) (pure []) :=
    fun n => guarded_pure ⟨Nat.zero_le n, fun an han => absurd han List.not_mem_nil⟩
  induction n with
  | zero =>
      intro len seen nr hlen
      unfold getChainLoop AnodeReader.getChainLoop
      split
      · exact hnil 0
      · split
        · exact guarded_fail
        · rw [if_pos (by omega)]
          exact guarded_fail
  | succ n ih =>
      intro len seen nr hlen
      rw [getChainLoop, AnodeReader.getChainLoop]
      split
      · exact hnil (n + 1)
      · split
        · exact guarded_fail
        · rw [if_neg (by omega)]
          refine (guarded_getAnode ho hr nr).weaken.bind fun an han => ?_
          refine Guarded.bind (ih (len + 1) (nr :: seen) an.next (by omega)) fun rest hrest => ?_
          refine guarded_pure ⟨Nat.succ_le_succ hrest.1, fun an' h => ?_⟩
          rcases List.mem_cons.mp h with rfl | h
          · exact han
          · exact hrest.2 an' h

theorem guarded_getChain (ho : IsOffset offset) (hr : Sane r) (anodenr : ℕ) :
    Counted dev r.reservedBlksize 0 IsChain (getChain offset r anodenr dev)
      (r.getChain anodenr dev) :=
  guarded_getChainLoop ho hr MAX_CHAIN_LEN 0 [] anodenr rfl

/-! ## Directories -/

/-- The rounds of the two loops over the extents of a chain and the blocks of an extent. -/
def rounds (chain : List Anode) : List (ℕ × ℕ) :=
  chain.flatMap fun an => (List.range an.clustersize).map fun i => (an.blocknr, i)

/-- The entries of the directory blocks of the given rounds. -/
def listBlocks (offset : ℕ) (r : AnodeReader) (dev : Device) :
    List (ℕ × ℕ) → CacheM (List DirEntry)
  | [] => pure []
  | (blocknr, i) :: rest => do
      let blk ← addU64 blocknr i
      let data ← readReserved offset dev blk r.reservedBlksize
      let entries ← dirblockEntries data
      let tail ← listBlocks offset r dev rest
      pure (entries ++ tail)

/-- List all entries in a directory given its anode number. -/
def listEntries (offset : ℕ) (r : AnodeReader) (dirAnode : ℕ) (dev : Device) :
    CacheM (List DirEntry) := do
  let chain ← getChain offset r dirAnode dev
  listBlocks offset r dev (rounds chain)

/-- Look up a single name in a directory (case-insensitive). -/
def lookup (offset : ℕ) (r : AnodeReader) (dirAnode : ℕ) (name : Name) (dev : Device) :
    CacheM DirEntry := do
  let entries ← listEntries offset r dirAnode dev
  match entries.find? fun e => nameEqCi e.name name with
  | some e => pure e
  | none => fail (.notFound (String.ofList name))

/-- The last component of a path: `NotFound` is no error. -/
def lookupLast (offset : ℕ) (r : AnodeReader) (dirAnode : ℕ) (name : Name) (dev : Device) :
    CacheM (Option DirEntry) := fun c =>
  match lookup offset r dirAnode name dev c with
  | .ok entry c' => .ok (some entry) c'
  | .error (.err (.notFound _)) c' => .ok none c'
  | .error f c' => .error f c'

/-- The loop of `resolve_path` over the remaining components. -/
def resolveParts (offset : ℕ) (r : AnodeReader) (dev : Device) : (dirAnode : ℕ) → List Name →
    CacheM (Option DirEntry)
  | _, [] => pure none
  | dirAnode, [part] => lookupLast offset r dirAnode part dev
  | dirAnode, part :: rest => do
      let entry ← lookup offset r dirAnode part dev
      if entry.isDir then resolveParts offset r dev entry.anode rest else fail .notADirectory

/-- The loop of `resolve_dir_path` over the remaining components. -/
def resolveDirParts (offset : ℕ) (r : AnodeReader) (dev : Device) :
    (dirAnode : ℕ) → List Name → CacheM ℕ
  | dirAnode, [] => pure dirAnode
  | dirAnode, part :: rest => do
      let entry ← lookup offset r dirAnode part dev
      if entry.isDir then resolveDirParts offset r dev entry.anode rest else fail .notADirectory

theorem map_rounds (chain : List Anode) :
    (rounds chain).map (fun p => p.1 + p.2) = AnodeReader.chainBlocks chain := by
  unfold rounds AnodeReader.chainBlocks
  rw [List.map_flatMap]
  refine List.flatMap_congr fun an _ => ?_
  rw [List.map_map, List.range'_eq_map_range]
  rfl

theorem mem_rounds {chain : List Anode} (h : IsChain chain) :
    ∀ p ∈ rounds chain, p.1 < U32 ∧ p.2 < U32 := by
  intro p hp
  obtain ⟨an, han, hp⟩ := List.mem_flatMap.mp hp
  obtain ⟨i, hi, rfl⟩ := List.mem_map.mp hp
  exact ⟨(h.2 an han).2.1, (List.mem_range.mp hi).trans (h.2 an han).1⟩

theorem guarded_listBlocks (ho : IsOffset offset) (hr : Sane r) :
    ∀ ps : List (ℕ × ℕ), (∀ p ∈ ps, p.1 < U32 ∧ p.2 < U32) →
      Counted dev r.reservedBlksize ps.length (fun _ => True) (listBlocks offset r dev ps)
        (r.listBlocks dev (ps.map fun p => p.1 + p.2)) := by
  have hU : U64 = 18446744073709551616 := rfl
  have hU' : U32 = 4294967296 := rfl
  intro ps
  induction ps with
  | nil => exact fun _ => guarded_pure trivial
  | cons p ps ih =>
      intro h
      obtain ⟨blocknr, i⟩ := p
      obtain ⟨hb, hi⟩ := h _ List.mem_cons_self
      dsimp only at hb hi
      have hblock : blocknr + i < 2 ^ 40 := by omega
      rw [listBlocks, List.map_cons, AnodeReader.listBlocks, addU64_ok (by omega), lift_ok_bind,
        List.length_cons, Nat.add_comm]
      refine Guarded.add (guarded_readReserved ho hblock hr.rbs) fun data hdata => ?_
      rw [dirblockEntries_eq (by rw [hdata]; exact hr.rbs), lift_ok_bind]
      exact Guarded.bind (ih fun p hp => h p (List.mem_cons_of_mem _ hp)) fun _ _ =>
        guarded_pure trivial

theorem guarded_listEntries (ho : IsOffset offset) (hr : Sane r) (dirAnode : ℕ) :
    Counted dev r.reservedBlksize 0 (fun _ => True) (listEntries offset r dirAnode dev)
      (r.listEntries dirAnode dev) := by
  refine (guarded_getChain ho hr dirAnode).bind fun chain hchain => ?_
  rw [← map_rounds]
  exact (guarded_listBlocks ho hr (rounds chain) (mem_rounds hchain)).weaken

theorem guarded_lookup (ho : IsOffset offset) (hr : Sane r) (dirAnode : ℕ) (name : Name) :
    Counted dev r.reservedBlksize 0 (fun _ => True) (lookup offset r dirAnode name dev)
      (r.lookup dirAnode name dev) := by
  refine (guarded_listEntries ho hr dirAnode).bind fun entries _ => ?_
  cases entries.find? fun e => nameEqCi e.name name with
  | none => exact guarded_fail
  | some e => exact guarded_pure trivial

theorem agrees_lookupLast (ho : IsOffset offset) (hr : Sane r) (dirAnode : ℕ) (name : Name) :
    Agrees (fun c => c.Mirrors dev r.reservedBlksize) BlockCache.generation
      (lookupLast offset r dirAnode name dev) (r.lookupLast dirAnode name dev) := by
  intro c hc
  unfold lookupLast AnodeReader.lookupLast
  rcases (guarded_lookup ho hr dirAnode name).agrees c hc with heq | ⟨c', hpanic, hend⟩
  · rw [heq]
    exact Or.inl rfl
  · rw [hpanic]
    exact Or.inr ⟨c', rfl, hend⟩

theorem agrees_resolveParts (ho : IsOffset offset) (hr : Sane r) (parts : List Name) :
    ∀ dirAnode : ℕ, Agrees (fun c => c.Mirrors dev r.reservedBlksize) BlockCache.generation
      (resolveParts offset r dev dirAnode parts) (r.resolveParts dev dirAnode parts) := by
  induction parts with
  | nil => exact fun _ _ _ => Or.inl rfl
  | cons part rest ih =>
      intro dirAnode
      rcases rest with _ | ⟨part', rest⟩
      · exact agrees_lookupLast ho hr dirAnode part
      · refine (guarded_lookup ho hr dirAnode part).agrees_bind fun entry _ => ?_
        split
        · exact ih _
        · exact fun _ _ => Or.inl rfl

theorem guarded_resolveDirParts (ho : IsOffset offset) (hr : Sane r) (parts : List Name) :
    ∀ dirAnode : ℕ,
    Counted dev r.reservedBlksize 0 (fun _ => True) (resolveDirParts offset r dev dirAnode parts)
      (r.resolveDirParts dev dirAnode parts) := by
  induction parts with
  | nil => exact fun _ => guarded_pure trivial
  | cons part rest ih =>
      intro dirAnode
      refine (guarded_lookup ho hr dirAnode part).bind fun entry _ => ?_
      split
      · exact ih _
      · exact guarded_fail

/-! ## Bitmap -/

def getBitmapBlock (offset : ℕ) (r : BitmapReader) (seqnr : ℕ) (dev : Device) :
    CacheM (Option ℕ) := do
  let idxNr ← divide seqnr r.indexPerBlock
  let idxOff ← remainder seqnr r.indexPerBlock
  let bmiBlk := r.bitmapindex.getD idxNr 0
  if bmiBlk = 0 then pure none
  else do
    let data ← readReserved offset dev bmiBlk r.reservedBlksize
    let step ← mulU64 idxOff 4
    let off ← addU64 INDEX_BLOCK_HEADER_SIZE step
    let entryEnd ← addU64 off 4
    if data.length < entryEnd then pure none
    else do
      let v ← readU32 data off
      if v = 0 then pure none else pure (some v)

/-- The bits of a word that count: `!0u32 << (32 - bits)` shifts by less than 32. -/
def countBits (word bits : ℕ) : Except Fault ℕ :=
  if bits = 32 then pure (BitmapReader.countOnes (BitVec.ofNat 32 word))
  else do
    let shift ← subU32 32 bits
    if shift < 32 then
      pure (BitmapReader.countOnes (BitVec.ofNat 32 word &&& BitVec.allOnes 32 <<< shift))
    else throw .panic

/-- The words of one bitmap block from `pos` on, with `n` rounds left. -/
def countWords (data : Bytes) : (n pos remaining free : ℕ) → Except Fault (ℕ × ℕ)
  | 0, pos, remaining, free =>
      if pos + 4 ≤ data.length ∧ 0 < remaining then throw .panic else pure (remaining, free)
  | n + 1, pos, remaining, free => do
      let wordEnd ← addU64 pos 4
      if wordEnd ≤ data.length ∧ 0 < remaining then do
        let word ← readU32 data pos
        let ones ← countBits word (min remaining 32)
        let free ← addU32 free ones
        let next ← addU64 pos 4
        countWords data n next (remaining - 32) free
      else pure (remaining, free)

/-- The loop of `count_free`, with `n` rounds left. -/
def countFreeLoop (offset : ℕ) (r : BitmapReader) (dev : Device) :
    (n seqnr remaining free : ℕ) → CacheM ℕ
  | 0, _, remaining, free => if remaining = 0 then pure free else throw .panic
  | n + 1, seqnr, remaining, free =>
      if remaining = 0 then pure free
      else do
        match ← getBitmapBlock offset r seqnr dev with
        | none => pure free
        | some blk =>
            let data ← readReserved offset dev blk r.reservedBlksize
            let (remaining, free) ←
              countWords data data.length BITMAP_BLOCK_HEADER_SIZE remaining free
            let next ← addU32 seqnr 1
            countFreeLoop offset r dev n next remaining free

/-- Count free blocks by scanning all bitmap blocks. -/
def countFree (offset : ℕ) (r : BitmapReader) (disksize : ℕ) (dev : Device) : CacheM ℕ :=
  countFreeLoop offset r dev disksize 0 disksize 0

theorem countOnes_le (w : BitVec 32) : BitmapReader.countOnes w ≤ 32 := by
  unfold BitmapReader.countOnes
  exact List.countP_le_length.trans (le_of_eq List.length_range)

theorem countBits_eq {word bits : ℕ} (hpos : 0 < bits) (hbits : bits ≤ 32) :
    countBits word bits = .ok (BitmapReader.countOnes (BitVec.ofNat 32 word &&&
      (if bits = 32 then BitVec.allOnes 32 else BitVec.allOnes 32 <<< (32 - bits)))) := by
  unfold countBits
  by_cases hall : bits = 32
  · rw [if_pos hall, if_pos hall, BitVec.and_allOnes]
    rfl
  · rw [if_neg hall, if_neg hall, subU32_ok hbits, ok_bind, if_pos (by omega)]
    rfl

theorem countOnes_mask_le (w : BitVec 32) {bits : ℕ} (hbits : bits ≤ 32) :
    BitmapReader.countOnes (w &&&
      (if bits = 32 then BitVec.allOnes 32 else BitVec.allOnes 32 <<< (32 - bits))) ≤ bits := by
  unfold BitmapReader.countOnes
  have hcount : ∀ bits < 33, (List.range 32).countP (fun i => decide (i < bits)) = bits := by
    decide
  refine (List.countP_mono_left fun i _ hi => ?_).trans (hcount bits (by omega)).le
  rw [BitVec.getMsbD_and, BitmapReader.getMsbD_mask hbits] at hi
  exact ((Bool.and_eq_true _ _).mp hi).2

/-- The words of a bitmap block are counted without an overflow. -/
theorem countWords_eq {data : Bytes} (hdata : data.length < 2 ^ 16) (n : ℕ) :
    ∀ pos remaining free, data.length ≤ pos + 4 * n + 3 → pos ≤ data.length + 12 →
      free + remaining < U32 → countWords data n pos remaining free =
        .ok (BitmapReader.countWords (beWords (data.drop pos)) remaining free) := by
  have hU : U64 = 18446744073709551616 := rfl
  have hshort : ∀ {pos}, ¬ pos + 4 ≤ data.length → beWords (data.drop pos) = [] := fun h =>
    beWords_of_short (by rw [List.length_drop]; omega)
  have hzero : ∀ (words : List ℕ) (free : ℕ), BitmapReader.countWords words 0 free = (0, free) := by
    intro words free
    cases words with
    | nil => rfl
    | cons word words => exact if_pos rfl
  induction n with
  | zero =>
      intro pos remaining free hn _ _
      have hend : ¬ pos + 4 ≤ data.length := by omega
      rw [countWords, if_neg fun h => hend h.1, hshort hend]
      rfl
  | succ n ih =>
      intro pos remaining free hn hpos hfree
      rw [countWords, addU64_ok (by omega), ok_bind]
      by_cases hend : pos + 4 ≤ data.length
      · by_cases hleft : 0 < remaining
        · have hbits : min remaining 32 ≤ 32 := min_le_right _ _
          have hle := countOnes_mask_le (BitVec.ofNat 32 (be32 data pos)) hbits
          rw [if_pos ⟨hend, hleft⟩, readU32_ok hend, ok_bind, countBits_eq (by omega) hbits,
            ok_bind, beWords_drop_of_le hend, BitmapReader.countWords,
            if_neg (show ¬ remaining = 0 by omega)]
          dsimp only
          generalize BitmapReader.countOnes (BitVec.ofNat 32 (be32 data pos) &&&
            (if min remaining 32 = 32 then BitVec.allOnes 32
              else BitVec.allOnes 32 <<< (32 - min remaining 32))) = ones at hle ⊢
          rw [addU32_ok (by omega), ok_bind, ok_bind]
          exact ih (pos + 4) (remaining - 32) (free + ones) (by omega) (by omega) (by omega)
        · obtain rfl : remaining = 0 := by omega
          rw [if_neg fun h => hleft h.2, hzero]
          rfl
      · rw [if_neg fun h => hend h.1, hshort hend]
        rfl

/-- What is counted, and how much remains. -/
theorem countWords_bound (words : List ℕ) : ∀ remaining free : ℕ,
    (BitmapReader.countWords words remaining free).2 +
        (BitmapReader.countWords words remaining free).1 ≤ free + remaining ∧
      (BitmapReader.countWords words remaining free).1 ≤ remaining ∧
      (words ≠ [] → 0 < remaining →
        (BitmapReader.countWords words remaining free).1 < remaining) := by
  induction words with
  | nil => exact fun remaining free => ⟨le_rfl, le_rfl, fun h => absurd rfl h⟩
  | cons word words ih =>
      intro remaining free
      rw [BitmapReader.countWords]
      by_cases hzero : remaining = 0
      · rw [if_pos hzero]
        exact ⟨le_rfl, le_rfl, fun _ hpos => by omega⟩
      · have hle := countOnes_mask_le (BitVec.ofNat 32 word) (min_le_right remaining 32)
        rw [if_neg hzero]
        dsimp only
        generalize BitmapReader.countOnes (BitVec.ofNat 32 word &&&
          (if min remaining 32 = 32 then BitVec.allOnes 32
            else BitVec.allOnes 32 <<< (32 - min remaining 32))) = ones at hle ⊢
        obtain ⟨h₁, h₂, -⟩ := ih (remaining - 32) (free + ones)
        refine ⟨by omega, by omega, fun _ _ => by omega⟩

/-- A bitmap reader made for a rootblock whose reserved block size was found large enough. -/
structure SaneBitmap (r : BitmapReader) : Prop where
  rbs : r.reservedBlksize < 2 ^ 16
  rbs_ge : 64 ≤ r.reservedBlksize
  index : r.indexPerBlock ≠ 0
  index_lt : r.indexPerBlock < 2 ^ 14
  bitmapindex : ∀ b ∈ r.bitmapindex, b < U32

theorem guarded_getBitmapBlock (ho : IsOffset offset) {r : BitmapReader} (hr : SaneBitmap r)
    (seqnr : ℕ) :
    Counted dev r.reservedBlksize 0 (fun o => ∀ b, o = some b → b < U32)
      (getBitmapBlock offset r seqnr dev) (r.getBitmapBlock seqnr dev) := by
  have hU : U64 = 18446744073709551616 := rfl
  have hU' : U32 = 4294967296 := rfl
  have hnone : Counted dev r.reservedBlksize 0 (fun o => ∀ b, o = some b → b < U32)
      (pure none) (pure none) := guarded_pure fun b hb => by cases hb
  have hoff := (Nat.mod_lt seqnr (Nat.pos_of_ne_zero hr.index)).trans hr.index_lt
  have hblk := getD_lt_U32 hr.bitmapindex (seqnr / r.indexPerBlock)
  unfold getBitmapBlock BitmapReader.getBitmapBlock INDEX_BLOCK_HEADER_SIZE
  dsimp only
  rw [if_neg hr.index, divide_ok hr.index, lift_ok_bind, remainder_ok hr.index, lift_ok_bind]
  generalize r.bitmapindex.getD (seqnr / r.indexPerBlock) 0 = bmiBlk at hblk ⊢
  generalize seqnr % r.indexPerBlock = idxOff at hoff ⊢
  have hblock : bmiBlk < 2 ^ 40 := by omega
  split
  · exact hnone
  · refine (guarded_readReserved ho hblock hr.rbs).weaken.bind fun data _ => ?_
    rw [mulU64_ok (by omega), lift_ok_bind, addU64_ok (by omega), lift_ok_bind,
      addU64_ok (by omega), lift_ok_bind]
    split
    · exact hnone
    · rw [readU32_ok (by omega), lift_ok_bind]
      split
      · exact hnone
      · refine guarded_pure fun b hb => ?_
        injection hb with hb
        exact hb ▸ be32_lt data _

theorem guarded_countFreeLoop (ho : IsOffset offset) {r : BitmapReader} (hr : SaneBitmap r)
    (n : ℕ) : ∀ seqnr remaining free : ℕ, remaining ≤ n → seqnr + remaining < U32 →
      free + remaining < U32 →
      Counted dev r.reservedBlksize 0 (fun _ => True)
        (countFreeLoop offset r dev n seqnr remaining free)
        (r.countFreeLoop dev n seqnr remaining free) := by
  have hU' : U32 = 4294967296 := rfl
  induction n with
  | zero =>
      intro seqnr remaining free hn _ _
      unfold countFreeLoop BitmapReader.countFreeLoop
      rw [if_pos (by omega)]
      exact guarded_pure trivial
  | succ n ih =>
      intro seqnr remaining free hn hseq hfree
      rw [countFreeLoop, BitmapReader.countFreeLoop]
      by_cases hzero : remaining = 0
      · rw [if_pos hzero, if_pos hzero]
        exact guarded_pure trivial
      · rw [if_neg hzero, if_neg hzero]
        refine (guarded_getBitmapBlock ho hr seqnr).bind fun o hblk => ?_
        cases o with
        | none => exact guarded_pure trivial
        | some blk =>
            have hlt := hblk blk rfl
            have hblock : blk < 2 ^ 40 := by omega
            have hge := hr.rbs_ge
            have hrbs := hr.rbs
            refine (guarded_readReserved ho hblock hr.rbs).weaken.bind fun data hdata => ?_
            have hwords : beWords (data.drop 12) ≠ [] := by
              rw [← List.length_pos_iff, length_beWords, List.length_drop]
              omega
            obtain ⟨h₁, h₂, h₃⟩ := countWords_bound (beWords (data.drop 12)) remaining free
            have h₃ := h₃ hwords (by omega)
            unfold BITMAP_BLOCK_HEADER_SIZE
            rw [countWords_eq (by omega) _ _ _ _ (by omega) (by omega) hfree, lift_ok_bind]
            generalize BitmapReader.countWords (beWords (data.drop 12)) remaining free = p
              at h₁ h₂ h₃ ⊢
            obtain ⟨remaining', free'⟩ := p
            dsimp only at h₁ h₂ h₃ ⊢
            rw [addU32_ok (by omega), lift_ok_bind]
            exact ih (seqnr + 1) remaining' free' (by omega) (by omega) (by omega)

end Checked

end Pfs3
