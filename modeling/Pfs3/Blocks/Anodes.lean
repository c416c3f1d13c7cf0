import Pfs3.Blocks.Commit
import Pfs3.Blocks.Pick
import Pfs3.Dirs.Search

/-!
# Registering an anode block

`alloc_anode_block` of the writer enters a new anode block into the index, and
`resolve_anode_block` of the reader looks it up, both with their own arithmetic and in two modes:
index blocks listed in the rootblock, or found through super blocks.  Both modes are one table of
index blocks, of which an entry may be added.
-/

namespace Pfs3

open ByteList BlockCache Stop

/-! ## The index, read from the blocks -/

/-- The entry of an index block, 0 past the end of the block. -/
def indexEntry (data : Bytes) (offset : ℕ) : ℕ :=
  if data.length < INDEX_BLOCK_HEADER_SIZE + offset * 4 + 4 then 0
  else be32 data (INDEX_BLOCK_HEADER_SIZE + offset * 4)

section Entries

variable {data src : Bytes} {off v : ℕ}

/-- A write to the header of the block. -/
theorem indexEntry_header {pos : ℕ} (hfit : pos + src.length ≤ data.length)
    (hpos : pos + src.length ≤ INDEX_BLOCK_HEADER_SIZE) (o : ℕ) :
    indexEntry (splice data pos src) o = indexEntry data o := by
  unfold indexEntry
  rw [length_splice hfit]
  split
  · rfl
  · exact be32_splice_ne hfit (Or.inr (by omega))

theorem indexEntry_splice (hfit : INDEX_BLOCK_HEADER_SIZE + off * 4 + 4 ≤ data.length) (o : ℕ) :
    indexEntry (splice data (INDEX_BLOCK_HEADER_SIZE + off * 4) (enc32 v)) o =
      if o = off then v % 2 ^ 32 else indexEntry data o := by
  unfold indexEntry
  rw [length_splice (by rw [length_enc32]; exact hfit)]
  by_cases ho : o = off
  · subst ho
    rw [if_neg (by omega), if_pos rfl]
    exact be32_splice_self hfit
  · rw [if_neg ho]
    split
    · rfl
    · refine be32_splice_ne (by rw [length_enc32]; exact hfit) ?_
      rw [length_enc32]
      omega

theorem of_putU32 {pos : ℕ} {data' : Bytes} (h : putU32 data pos v = .ok data') :
    pos + 4 ≤ data.length ∧ data' = splice data pos (enc32 v) := by
  unfold putU32 putBytes at h
  rw [length_enc32] at h
  split at h
  · cases h
    exact ⟨‹_›, rfl⟩
  · cases h

theorem be32_replicate (n i : ℕ) : be32 (List.replicate n 0) i = 0 := by
  rw [be32, List.drop_replicate]
  rcases n - i with _ | _ | _ | _ | k <;> rfl

theorem indexEntry_replicate (n o : ℕ) : indexEntry (List.replicate n 0) o = 0 := by
  unfold indexEntry
  split
  · rfl
  · exact be32_replicate n _

end Entries

namespace AnodeReader

def entryIn (view : ℕ → Except Fault Bytes) (block offset : ℕ) : Except Fault ℕ :=
  (view block).map fun data => indexEntry data offset

/-- The number of the index block for the sequence numbers from `i * index_per_block` on. -/
def indexIn (r : AnodeReader) (view : ℕ → Except Fault Bytes) (i : ℕ) : Except Fault ℕ :=
  if r.isLarge then
    let superBlk := r.superindex.getD (i / r.indexPerBlock) 0
    if superBlk = 0 then .ok 0 else entryIn view superBlk (i % r.indexPerBlock)
  else .ok (r.indexblocks.getD i 0)

/-- The anode block of a sequence number. -/
def resolveIn (r : AnodeReader) (view : ℕ → Except Fault Bytes) (seqnr : ℕ) : Except Fault ℕ :=
  match r.indexIn view (seqnr / r.indexPerBlock) with
  | .error f => .error f
  | .ok idxBlk => if idxBlk = 0 then .ok 0 else entryIn view idxBlk (seqnr % r.indexPerBlock)

/-- What `get_anode` makes of an anode block. -/
def anodeAt (data : Bytes) (anodenr offset : ℕ) : Except Fault Anode :=
  if data.length < 16 then .error (.err (.tooShort "anode block header"))
  else if be16 data 0 ≠ ABLKID then
    .error (.err (.badBlockId "anode block" ABLKID (be16 data 0)))
  else if data.length < ANODE_BLOCK_HEADER_SIZE + offset * ANODE_SIZE + ANODE_SIZE then
    .error (.err (.anodeNotFound anodenr))
  else .ok (Anode.parse data (ANODE_BLOCK_HEADER_SIZE + offset * ANODE_SIZE) anodenr)

/-- An anode, looked up in the blocks. -/
def anodeIn (r : AnodeReader) (view : ℕ → Except Fault Bytes) (anodenr : ℕ) : Except Fault Anode :=
  match r.resolveIn view (r.splitNr anodenr).1 with
  | .error f => .error f
  | .ok blkNr =>
      if blkNr = 0 then .error (.err (.anodeNotFound anodenr))
      else
        match view blkNr with
        | .error f => .error f
        | .ok data => anodeAt data anodenr (r.splitNr anodenr).2

section Reads

variable {r : AnodeReader} {dev : Device} {P : ℕ → Prop}

theorem readIndexEntry_reads {block : ℕ} (hP : P block) (offset : ℕ) :
    Reads (Shows dev r.reservedBlksize P) Eq (r.readIndexEntry block offset dev)
      (raised (entryIn (dev.readReserved r.reservedBlksize) block offset)) := by
  have hread := @readReserved_shows dev r.reservedBlksize P block hP
  unfold readIndexEntry entryIn
  cases hr : dev.readReserved r.reservedBlksize block with
  | error f =>
      rw [hr] at hread
      exact hread.fails
  | ok data =>
      rw [hr] at hread
      refine hread.seq ?_
      dsimp only [Except.map, raised, indexEntry]
      split
      · exact reads_pure rfl
      · exact reads_pure rfl

/-- The reader through the cache follows the table, where the cache shows the blocks of it. -/
theorem resolveAnodeBlock_reads (hipb : r.indexPerBlock ≠ 0)
    (hsuper : ∀ n, r.isLarge = true → r.superindex.getD n 0 ≠ 0 → P (r.superindex.getD n 0))
    (hindex : ∀ i b, r.indexIn (dev.readReserved r.reservedBlksize) i = .ok b → b ≠ 0 → P b)
    (seqnr : ℕ) : Reads (Shows dev r.reservedBlksize P) Eq (r.resolveAnodeBlock seqnr dev)
      (raised (r.resolveIn (dev.readReserved r.reservedBlksize) seqnr)) := by
  have hdiv : seqnr / (r.indexPerBlock * r.indexPerBlock) =
      seqnr / r.indexPerBlock / r.indexPerBlock := (Nat.div_div_eq_div_mul ..).symm
  have hmid : seqnr % (r.indexPerBlock * r.indexPerBlock) / r.indexPerBlock =
      seqnr / r.indexPerBlock % r.indexPerBlock := Nat.mod_mul_right_div_self ..
  have hlow : seqnr % (r.indexPerBlock * r.indexPerBlock) % r.indexPerBlock =
      seqnr % r.indexPerBlock := Nat.mod_mul_left_mod ..
  have hix := hindex (seqnr / r.indexPerBlock)
  unfold resolveAnodeBlock resolveIn
  dsimp only
  rw [if_neg hipb, hdiv, hmid, hlow]
  cases hlarge : r.isLarge with
  | true =>
      rw [if_pos rfl]
      unfold indexIn at hix ⊢
      rw [hlarge, if_pos rfl] at hix ⊢
      dsimp only at hix ⊢
      by_cases hzero : r.superindex.getD (seqnr / r.indexPerBlock / r.indexPerBlock) 0 = 0
      · rw [if_pos hzero, if_pos hzero]
        exact reads_pure rfl
      · rw [if_neg hzero] at hix
        rw [if_neg hzero, if_neg hzero]
        have hentry := @readIndexEntry_reads r dev P _ (hsuper _ hlarge hzero)
          (seqnr / r.indexPerBlock % r.indexPerBlock)
        cases he : entryIn (dev.readReserved r.reservedBlksize)
            (r.superindex.getD (seqnr / r.indexPerBlock / r.indexPerBlock) 0)
            (seqnr / r.indexPerBlock % r.indexPerBlock) with
        | error f =>
            rw [he] at hentry
            exact hentry.fails
        | ok b =>
            rw [he] at hentry
            refine hentry.seq ?_
            dsimp only
            split
            · exact reads_pure rfl
            · rename_i hb
              exact readIndexEntry_reads (hix b he hb) _
  | false =>
      rw [if_neg Bool.false_ne_true]
      unfold indexIn at hix ⊢
      rw [hlarge, if_neg Bool.false_ne_true] at hix ⊢
      dsimp only
      split
      · exact reads_pure rfl
      · rename_i hb
        exact readIndexEntry_reads (hix _ rfl hb) _

theorem getAnode_reads (h : r.Valid)
    (hsuper : ∀ n, r.isLarge = true → r.superindex.getD n 0 ≠ 0 → P (r.superindex.getD n 0))
    (hindex : ∀ i b, r.indexIn (dev.readReserved r.reservedBlksize) i = .ok b → b ≠ 0 → P b)
    (hanode : ∀ s b, r.resolveIn (dev.readReserved r.reservedBlksize) s = .ok b → b ≠ 0 → P b)
    (anodenr : ℕ) : Reads (Shows dev r.reservedBlksize P) Eq (r.getAnode anodenr dev)
      (raised (r.anodeIn (dev.readReserved r.reservedBlksize) anodenr)) := by
  have hresolve := resolveAnodeBlock_reads h.index hsuper hindex (r.splitNr anodenr).1
  have hblk := hanode (r.splitNr anodenr).1
  unfold getAnode anodeIn
  rw [if_neg fun hz => h.anodes hz.2]
  dsimp only
  cases hr : r.resolveIn (dev.readReserved r.reservedBlksize) (r.splitNr anodenr).1 with
  | error f =>
      rw [hr] at hresolve
      exact hresolve.fails
  | ok b =>
      rw [hr] at hresolve
      refine hresolve.seq ?_
      dsimp only
      split
      · exact reads_throw
      · rename_i hb
        have hread := @readReserved_shows dev r.reservedBlksize P b (hblk b hr hb)
        cases hd : dev.readReserved r.reservedBlksize b with
        | error f =>
            rw [hd] at hread
            exact hread.fails
        | ok data =>
            rw [hd] at hread
            refine hread.seq ?_
            dsimp only
            unfold anodeAt
            by_cases hshort : data.length < 16
            · rw [if_pos hshort, if_pos hshort]
              exact reads_throw
            · rw [if_neg hshort, if_neg hshort]
              by_cases hid : be16 data 0 ≠ ABLKID
              · rw [if_pos hid, if_pos hid]
                exact reads_throw
              · rw [if_neg hid, if_neg hid]
                by_cases hend : data.length < ANODE_BLOCK_HEADER_SIZE +
                    (r.splitNr anodenr).2 * ANODE_SIZE + ANODE_SIZE
                · rw [if_pos hend, if_pos hend]
                  exact reads_throw
                · rw [if_neg hend, if_neg hend]
                  exact reads_pure rfl

end Reads

end AnodeReader

/-! ## A new entry in the table -/

/-- What the index refers to: super blocks, index blocks and anode blocks. -/
inductive Place where
  | super (n : ℕ)
  | index (i : ℕ)
  | anode (seqnr : ℕ)

namespace AnodeReader

variable {r : AnodeReader} {view view' : ℕ → Except Fault Bytes}

/-- The block of a place, 0 where there is none. -/
def placeIn (r : AnodeReader) (view : ℕ → Except Fault Bytes) : Place → Except Fault ℕ
  | .super n => .ok (if r.isLarge then r.superindex.getD n 0 else 0)
  | .index i => r.indexIn view i
  | .anode seqnr => r.resolveIn view seqnr

/-- No two places have the same block. -/
def Apart (r : AnodeReader) (view : ℕ → Except Fault Bytes) : Prop :=
  ∀ p q b, b ≠ 0 → r.placeIn view p = .ok b → r.placeIn view q = .ok b → p = q

theorem entryIn_ok {b : ℕ} {data : Bytes} (h : view b = .ok data) (offset : ℕ) :
    entryIn view b offset = .ok (indexEntry data offset) := by
  rw [entryIn, h]
  rfl

theorem entryIn_congr {b : ℕ} (h : view' b = view b) (offset : ℕ) :
    entryIn view' b offset = entryIn view b offset := by
  rw [entryIn, entryIn, h]

theorem resolveIn_of_index {seqnr b : ℕ} (h : r.indexIn view (seqnr / r.indexPerBlock) = .ok b) :
    r.resolveIn view seqnr =
      if b = 0 then .ok 0 else entryIn view b (seqnr % r.indexPerBlock) := by
  rw [resolveIn, h]

/-- The positions of two sequence numbers in one index block. -/
theorem offset_ne {s s' : ℕ} (hne : s' ≠ s) (hdiv : s' / r.indexPerBlock = s / r.indexPerBlock) :
    s' % r.indexPerBlock ≠ s % r.indexPerBlock := by
  intro hmod
  refine hne ?_
  rw [← Nat.div_add_mod s' r.indexPerBlock, ← Nat.div_add_mod s r.indexPerBlock, hdiv, hmod]

section Tables

variable {s : ℕ}

theorem indexIn_congr (h : ∀ n, r.isLarge = true → r.superindex.getD n 0 ≠ 0 →
      view' (r.superindex.getD n 0) = view (r.superindex.getD n 0)) (i : ℕ) :
    r.indexIn view' i = r.indexIn view i := by
  unfold indexIn
  cases hlarge : r.isLarge with
  | false => rfl
  | true =>
      rw [if_pos rfl, if_pos rfl]
      dsimp only
      by_cases hzero : r.superindex.getD (i / r.indexPerBlock) 0 = 0
      · rw [if_pos hzero, if_pos hzero]
      · rw [if_neg hzero, if_neg hzero]
        exact entryIn_congr (h _ hlarge hzero) _

theorem super_place (hlarge : r.isLarge = true) (n : ℕ) :
    r.placeIn view (.super n) = .ok (r.superindex.getD n 0) := by
  rw [placeIn, if_pos hlarge]

/-- An entry of an index block that is there. -/
theorem entered_of_index {idx : ℕ} {data data' : Bytes} (hapart : r.Apart view)
    (hindex : r.indexIn view (s / r.indexPerBlock) = .ok idx) (hidx : idx ≠ 0)
    (hdata : view idx = .ok data) (hdata' : view' idx = .ok data')
    (hother : ∀ off, off ≠ s % r.indexPerBlock → indexEntry data' off = indexEntry data off)
    (hview : ∀ p b, b ≠ 0 → b ≠ idx → r.placeIn view p = .ok b → view' b = view b) :
    (∀ i, r.indexIn view' i = r.indexIn view i) ∧
      r.resolveIn view' s = .ok (indexEntry data' (s % r.indexPerBlock)) ∧
      ∀ s', s' ≠ s → r.resolveIn view' s' = r.resolveIn view s' := by
  have hidxs : ∀ i, r.indexIn view' i = r.indexIn view i :=
    indexIn_congr fun n hlarge hzero => by
      refine hview (.super n) _ hzero (fun hcon => ?_) (super_place hlarge n)
      have heq := hapart (.super n) (.index (s / r.indexPerBlock)) idx hidx
        (hcon ▸ super_place hlarge n) hindex
      cases heq
  refine ⟨hidxs, ?_, fun s' hne => ?_⟩
  · rw [resolveIn_of_index ((hidxs _).trans hindex), if_neg hidx]
    exact entryIn_ok hdata' _
  · cases hix : r.indexIn view (s' / r.indexPerBlock) with
    | error f => rw [resolveIn, resolveIn, hidxs, hix]
    | ok b =>
        rw [resolveIn_of_index ((hidxs _).trans hix), resolveIn_of_index hix]
        by_cases hb : b = 0
        · rw [if_pos hb, if_pos hb]
        · rw [if_neg hb, if_neg hb]
          by_cases hsame : b = idx
          · subst hsame
            have hplace := hapart (.index _) (.index _) b hb hix hindex
            injection hplace with hdiv
            rw [entryIn_ok hdata, entryIn_ok hdata', hother _ (offset_ne hne hdiv)]
          · exact entryIn_congr (hview (.index _) b hb hsame hix) _

/-- An entry of a new index block, `idx` unless the super block lost it. -/
theorem entered_of_super {idx : ℕ} {sdata sdata' : Bytes} (hapart : r.Apart view)
    (hlarge : r.isLarge = true)
    (hsuper : r.superindex.getD (s / r.indexPerBlock / r.indexPerBlock) 0 ≠ 0)
    (hdata : view (r.superindex.getD (s / r.indexPerBlock / r.indexPerBlock) 0) = .ok sdata)
    (hdata' : view' (r.superindex.getD (s / r.indexPerBlock / r.indexPerBlock) 0) = .ok sdata')
    (hzero : ∀ s', s' ≠ s → s' / r.indexPerBlock = s / r.indexPerBlock →
      r.resolveIn view s' = .ok 0)
    (hidx : indexEntry sdata' (s / r.indexPerBlock % r.indexPerBlock) = idx)
    (hother : ∀ off, off ≠ s / r.indexPerBlock % r.indexPerBlock →
      indexEntry sdata' off = indexEntry sdata off)
    (hnew : idx ≠ 0 → ∃ idata, view' idx = .ok idata ∧
      ∀ off, off ≠ s % r.indexPerBlock → indexEntry idata off = 0)
    (hview : ∀ p b, b ≠ 0 → b ≠ r.superindex.getD (s / r.indexPerBlock / r.indexPerBlock) 0 →
      r.placeIn view p = .ok b → view' b = view b) :
    r.indexIn view' (s / r.indexPerBlock) = .ok idx ∧
      (∀ i, i ≠ s / r.indexPerBlock → r.indexIn view' i = r.indexIn view i) ∧
      ∀ s', s' ≠ s → r.resolveIn view' s' = r.resolveIn view s' := by
  have hlook : ∀ (v : ℕ → Except Fault Bytes) i, r.superindex.getD (i / r.indexPerBlock) 0 ≠ 0 →
      r.indexIn v i =
        entryIn v (r.superindex.getD (i / r.indexPerBlock) 0) (i % r.indexPerBlock) :=
    fun v i hne => by
      rw [indexIn, if_pos hlarge]
      exact if_neg hne
  have hthere : r.indexIn view' (s / r.indexPerBlock) = .ok idx := by
    rw [hlook view' _ hsuper, entryIn_ok hdata', hidx]
  have hidxs : ∀ i, i ≠ s / r.indexPerBlock → r.indexIn view' i = r.indexIn view i := by
    intro i hne
    by_cases hsup : r.superindex.getD (i / r.indexPerBlock) 0 = 0
    · rw [indexIn, indexIn, if_pos hlarge, if_pos hlarge]
      dsimp only
      rw [if_pos hsup, if_pos hsup]
    · rw [hlook view' i hsup, hlook view i hsup]
      by_cases hsame : r.superindex.getD (i / r.indexPerBlock) 0 =
          r.superindex.getD (s / r.indexPerBlock / r.indexPerBlock) 0
      · have hplace := hapart (.super _) (.super _) _ hsup (super_place hlarge _)
          ((super_place hlarge _).trans (congrArg _ hsame.symm))
        injection hplace with hdiv
        rw [hsame, entryIn_ok hdata, entryIn_ok hdata', hother _ (offset_ne hne hdiv)]
      · exact entryIn_congr (hview (.super _) _ hsup hsame (super_place hlarge _)) _
  refine ⟨hthere, hidxs, fun s' hne => ?_⟩
  by_cases hdiv : s' / r.indexPerBlock = s / r.indexPerBlock
  · rw [← hdiv] at hthere
    rw [hzero s' hne hdiv, resolveIn_of_index hthere]
    by_cases hi : idx = 0
    · rw [if_pos hi]
    · obtain ⟨idata, hidata, hempty⟩ := hnew hi
      rw [if_neg hi, entryIn_ok hidata, hempty _ (offset_ne hne hdiv)]
  · have hsame := hidxs _ hdiv
    cases hix : r.indexIn view (s' / r.indexPerBlock) with
    | error f => rw [resolveIn, resolveIn, hsame, hix]
    | ok b =>
        rw [resolveIn_of_index (hsame.trans hix), resolveIn_of_index hix]
        by_cases hb : b = 0
        · rw [if_pos hb, if_pos hb]
        · rw [if_neg hb, if_neg hb]
          refine entryIn_congr (hview (.index _) b hb (fun hcon => ?_) hix) _
          have hplace := hapart (.index _) (.super _) b hb hix (hcon ▸ super_place hlarge _)
          cases hplace

/-- The anodes of the other blocks. -/
theorem anodeIn_of_elsewhere (hzero : r.resolveIn view s = .ok 0)
    (helse : ∀ s', s' ≠ s → r.resolveIn view' s' = r.resolveIn view s')
    (hview : ∀ s' b, b ≠ 0 → r.resolveIn view s' = .ok b → view' b = view b) {anodenr : ℕ}
    {an : Anode} (h : r.anodeIn view anodenr = .ok an) : r.anodeIn view' anodenr = .ok an := by
  unfold anodeIn at h ⊢
  have hne : (r.splitNr anodenr).1 ≠ s := by
    intro hcon
    rw [hcon, hzero] at h
    cases h
  rw [helse _ hne]
  cases hres : r.resolveIn view (r.splitNr anodenr).1 with
  | error f =>
      rw [hres] at h
      cases h
  | ok b =>
      rw [hres] at h
      dsimp only at h ⊢
      by_cases hb : b = 0
      · rw [if_pos hb] at h
        cases h
      · rw [if_neg hb] at h ⊢
        rw [hview _ b hb hres]
        exact h

end Tables

end AnodeReader

/-! ## A call on the way to its commit -/

namespace Writer

/-- The bit of the reserved bitmap. -/
def isFree (w : Writer) (k : ℕ) : Bool := (w.resBitmap.getD (k / 32) 0).getMsbD (k % 32)

/-- A writer with nothing queued, whose cache shows the reserved blocks. -/
structure Stable (w : Writer) : Prop where
  cache : w.vol.cache.Shows w.vol.dev w.resblocksize w.Reserved
  anodes : w.vol.anodes.Valid
  anodesRbs : w.vol.anodes.reservedBlksize = w.resblocksize
  sectors : w.Sectors
  pending : w.pendingWrites = []

theorem Committed.stable {w : Writer} (hw : w.Committed) : w.Stable :=
  ⟨BlockCache.Coherent.shows hw.cache, hw.anodes, hw.anodesRbs,
    ⟨hw.rescluster, hw.rescluster_pos⟩, hw.pending⟩

/-- The two writers have the same volume parameters. -/
structure Alike (w w' : Writer) : Prop where
  anodes : w'.vol.anodes = w.vol.anodes
  rootblock : ∃ n, w'.vol.rootblock = { w.vol.rootblock with reservedFree := n }
  ext : w'.vol.rootblockExt = w.vol.rootblockExt
  resblocksize : w'.resblocksize = w.resblocksize
  rescluster : w'.rescluster = w.rescluster
  indexPerBlock : w'.indexPerBlock = w.indexPerBlock
  anodesPerBlock : w'.anodesPerBlock = w.anodesPerBlock
  firstreserved : w'.firstreserved = w.firstreserved

/-- `w'` is `w` with other queued blocks, other bits in the reserved bitmap and another cache. -/
structure Ahead (w w' : Writer) (view : ℕ → Except Fault Bytes) (free : ℕ → Bool) : Prop
    extends Alike w w' where
  dev : w'.vol.dev = w.vol.dev
  cache : w'.vol.cache.Shows w.vol.dev w.resblocksize w.Reserved
  queued : w'.Queued
  blocks : w'.blockOf = view
  free : w'.isFree = free

/-- The entries of an index block that lie in the sectors of the block. -/
def Within (w : Writer) (off : ℕ) : Prop :=
  INDEX_BLOCK_HEADER_SIZE + off * 4 + 4 ≤ w.rescluster * SECTOR_SIZE

instance (w : Writer) (off : ℕ) : Decidable (w.Within off) := Nat.decLe _ _

theorem indexEntry_kept {w : Writer} (hs : w.Sectors) {data : Bytes}
    (hlen : data.length = w.resblocksize) (off : ℕ) :
    indexEntry (w.kept data) off = if w.Within off then indexEntry data off else 0 := by
  have hle := hs.le
  have htake : (data.take (w.rescluster * 512)).length = w.rescluster * 512 := by
    rw [List.length_take]
    omega
  have hkept : (w.kept data).length = w.resblocksize := by
    rw [kept, List.length_append, htake, List.length_replicate]
    omega
  have hhead : INDEX_BLOCK_HEADER_SIZE = 12 := rfl
  unfold indexEntry
  rw [hkept, hlen, hhead]
  by_cases hin : w.Within off
  · rw [if_pos hin]
    have hfit : 12 + off * 4 + 4 ≤ w.rescluster * 512 := hin
    rw [if_neg (by omega), if_neg (by omega)]
    refine be32_eq_of_take ?_
    rw [kept, List.drop_append_of_le_length (by omega),
      List.take_append_of_le_length (by rw [List.length_drop]; omega), List.drop_take,
      List.take_take, Nat.min_eq_left (by omega)]
  · rw [if_neg hin]
    have hpast : ¬ 12 + off * 4 + 4 ≤ w.rescluster * 512 := hin
    split
    · rfl
    · have hrest := be32_append (data.take (w.rescluster * 512))
        (List.replicate (w.resblocksize - w.rescluster * 512) 0)
        (12 + off * 4 - w.rescluster * 512)
      rw [htake, be32_replicate, Nat.add_sub_cancel' (by omega)] at hrest
      exact hrest

/-- `data'` is an index block with the entries of `data`, one of them set to `n`. -/
structure Patched (w : Writer) (data data' : Bytes) (off n : ℕ) : Prop where
  length : data'.length = w.resblocksize
  entry : ∀ o, indexEntry data' o = if o = off then n else indexEntry data o

section Ahead

variable {w w₁ w₂ : Writer} {view : ℕ → Except Fault Bytes} {free : ℕ → Bool}

theorem Stable.ahead (hw : w.Stable) : Ahead w w w.blockOf w.isFree where
  anodes := rfl
  rootblock := ⟨_, rfl⟩
  ext := rfl
  resblocksize := rfl
  rescluster := rfl
  indexPerBlock := rfl
  anodesPerBlock := rfl
  firstreserved := rfl
  dev := rfl
  cache := hw.cache
  queued := by
    have hnil := hw.pending
    constructor
    · rw [hnil]
      exact fun p hp => absurd hp List.not_mem_nil
    · rw [hnil]
      exact List.nodup_nil
    · rw [hnil]
      exact fun p hp => absurd hp List.not_mem_nil
  blocks := rfl
  free := rfl

theorem Ahead.writeReserved (h : Ahead w w₁ view free) {b : ℕ} {data : Bytes} (hb : w.OnGrid b)
    (hlen : data.length = w.resblocksize) (hrun : writeReserved b data w₁ = .ok () w₂) :
    Ahead w w₂ (Function.update view b (.ok data)) free := by
  obtain ⟨w', hrun', hview⟩ := @blockOf_writeReserved b data w₁
  rw [hrun] at hrun'
  cases hrun'
  cases hrun
  have hgrid : ∀ x, w.OnGrid x → w₁.OnGrid x := fun x hx => by
    unfold OnGrid
    rw [h.firstreserved, h.rescluster]
    exact hx
  exact
    { h with
      cache := h.cache.invalidate b
      queued :=
        { grid := fun p hp => by
            rcases mem_queueWrite hp with rfl | hp
            · exact hgrid b hb
            · exact h.queued.grid p hp
          nodup := nodup_queueWrite h.queued.nodup
          length := fun p hp => by
            rcases mem_queueWrite hp with rfl | hp
            · exact hlen.trans h.resblocksize.symm
            · exact h.queued.length p hp }
      blocks := hview.trans (by rw [h.blocks])
      free := h.free }

theorem Ahead.nextDatestamp (h : Ahead w w₁ view free) {ds : ℕ}
    (hrun : nextDatestamp w₁ = .ok ds w₂) : Ahead w w₂ view free := by
  unfold Writer.nextDatestamp at hrun
  rw [bind_of_ok (rfl : (get : WriterM Writer) _ = .ok _ _)] at hrun
  unfold addU32 at hrun
  split at hrun
  · cases hrun
    exact { h with queued := ⟨h.queued.grid, h.queued.nodup, h.queued.length⟩ }
  · cases hrun

theorem of_firstFree (words : List (BitVec 32)) : ∀ {li l bit : ℕ},
    firstFree li words = some (l, bit) → ∃ i long, l = li + i ∧ words[i]? = some long ∧
      bit < 32 ∧ long.getMsbD bit = true := by
  induction words with
  | nil =>
      intro li l bit h
      cases h
  | cons long words ih =>
      intro li l bit h
      have hrest : firstFree (li + 1) words = some (l, bit) → ∃ i long', l = li + i ∧
          (long :: words)[i]? = some long' ∧ bit < 32 ∧ long'.getMsbD bit = true := fun h => by
        obtain ⟨i, long', rfl, hget, hbit⟩ := ih h
        exact ⟨i + 1, long', by omega, hget, hbit⟩
      rw [firstFree] at h
      split at h
      · exact hrest h
      · split at h
        · rename_i found hfound
          obtain ⟨rfl, rfl⟩ := Prod.mk.inj (Option.some.inj h)
          have hlt := List.mem_range.mp (List.mem_of_find?_eq_some hfound)
          have hset : long &&& bitMask found ≠ 0 := by
            have hp := List.find?_some hfound
            simpa using hp
          exact ⟨0, long, rfl, rfl, hlt, (and_bitMask_ne_zero hlt).mp hset⟩
        · exact hrest h

theorem isFree_clear {li bit : ℕ} {long : BitVec 32} {u : Volume → Volume}
    (hget : w₁.resBitmap[li]? = some long) (hbit : bit < 32) :
    isFree { w₁ with
      vol := u w₁.vol
      resBitmap := w₁.resBitmap.modify li fun l => l &&& ~~~ bitMask bit } =
      Function.update w₁.isFree (li * 32 + bit) false := by
  funext j
  have hlow : j % 32 < 32 := Nat.mod_lt _ (by decide)
  unfold isFree
  dsimp only
  rw [List.getD_eq_getElem?_getD, List.getElem?_modify, Option.map_eq_map]
  by_cases hj : j = li * 32 + bit
  · subst hj
    rw [Function.update_self, show (li * 32 + bit) / 32 = li by omega, hget,
      show (li * 32 + bit) % 32 = bit by omega, Option.map_some, Option.getD_some, if_pos rfl,
      getMsbD_and_not_bitMask hbit, decide_eq_true rfl, Bool.not_true, Bool.and_false]
  · rw [Function.update_of_ne hj]
    by_cases hli : li = j / 32
    · subst hli
      rw [hget, Option.map_some, Option.getD_some, if_pos rfl, getMsbD_and_not_bitMask hlow,
        decide_eq_false (by omega), Bool.not_false, Bool.and_true, List.getD_eq_getElem?_getD, hget,
        Option.getD_some]
    · rw [List.getD_eq_getElem?_getD]
      cases w₁.resBitmap[j / 32]? with
      | none => rfl
      | some l => rw [Option.map_some, Option.getD_some, if_neg hli, Option.getD_some]

/-- An allocation takes a block of the grid whose bit is set, and clears that bit. -/
theorem Ahead.allocReservedBlock (h : Ahead w w₁ view free) {b : ℕ}
    (hrun : allocReservedBlock w₁ = .ok b w₂) : b < U32 ∧ ∃ k,
      b = w.firstreserved + k * w.rescluster ∧ free k = true ∧
      Ahead w w₂ view (Function.update free k false) := by
  unfold Writer.allocReservedBlock at hrun
  rw [bind_of_ok (rfl : (get : WriterM Writer) _ = .ok _ _)] at hrun
  cases hfirst : firstFree 0 w₁.resBitmap with
  | none =>
      rw [hfirst] at hrun
      cases hrun
  | some found =>
      obtain ⟨li, bit⟩ := found
      obtain ⟨i, long, hli, hget, hbit, hset⟩ := of_firstFree _ hfirst
      obtain rfl : li = i := by omega
      rw [hfirst] at hrun
      obtain ⟨_, w', hstate, hrun⟩ := of_bind_eq_ok hrun
      cases hstate
      obtain ⟨n, w', hsub, hrun⟩ := of_bind_eq_ok hrun
      obtain ⟨-, rfl⟩ := Format.of_lift_ok hsub
      obtain ⟨_, w', hstate, hrun⟩ := of_bind_eq_ok hrun
      cases hstate
      obtain ⟨hadd, rfl⟩ := Format.of_lift_ok hrun
      unfold addU32 at hadd
      split at hadd
      · rename_i hlt
        cases hadd
        refine ⟨hlt, li * 32 + bit, by rw [h.firstreserved, h.rescluster], ?_, ?_⟩
        · rw [← h.free, isFree, List.getD_eq_getElem?_getD, show (li * 32 + bit) / 32 = li by omega,
            hget, show (li * 32 + bit) % 32 = bit by omega]
          exact hset
        · obtain ⟨m, hm⟩ := h.rootblock
          have hclear := @isFree_clear w₁ li bit long
            (fun v => { v with rootblock := { v.rootblock with reservedFree := n } }) hget hbit
          exact
            { h with
              rootblock := ⟨n, by dsimp only; rw [hm]⟩
              queued := ⟨h.queued.grid, h.queued.nodup, h.queued.length⟩
              free := hclear.trans (by rw [h.free]) }
      · cases hadd

theorem Ahead.readReservedRaw (h : Ahead w w₁ view free) {b : ℕ} {data : Bytes}
    (hrun : readReservedRaw b w₁ = .ok data w₂) : w₂ = w₁ ∧ view b = .ok data := by
  rw [readReservedRaw_eq, h.blocks] at hrun
  cases hview : view b with
  | error f =>
      rw [hview] at hrun
      cases hrun
  | ok data' =>
      rw [hview] at hrun
      cases hrun
      exact ⟨rfl, rfl⟩

theorem Ahead.length (h : Ahead w w₁ view free) {b : ℕ} {data : Bytes} (hview : view b = .ok data)
    (hle : w.rescluster * 512 ≤ w.resblocksize) : data.length = w.resblocksize := by
  rw [← h.blocks, blockOf] at hview
  cases hlook : w₁.pendingWrites.lookup b with
  | some data' =>
      rw [hlook] at hview
      cases hview
      exact (h.queued.length _ (mem_of_lookup hlook)).trans h.resblocksize
  | none =>
      rw [hlook] at hview
      dsimp only at hview
      rw [h.dev, h.rescluster, h.resblocksize] at hview
      have hsector : SECTOR_SIZE = 512 := rfl
      unfold Device.readBlocks at hview
      rw [hsector, if_neg (by omega)] at hview
      split at hview
      · cases hview
      · injection hview with hdata
        rw [← hdata, List.length_append, Device.length_bytesAt, List.length_replicate]
        omega

/-- A new entry in an index block or a super block. -/
theorem Ahead.putIndexEntry (h : Ahead w w₁ view free)
    (hle : w.rescluster * 512 ≤ w.resblocksize) {b off n : ℕ} (hb : w.OnGrid b)
    (hn : n < U32) (hrun : putIndexEntry b off n w₁ = .ok () w₂) : ∃ data data' : Bytes,
      view b = .ok data ∧ w.Patched data data' off n ∧
      Ahead w w₂ (Function.update view b (.ok data')) free := by
  unfold Writer.putIndexEntry at hrun
  obtain ⟨data, w', hread, hrest⟩ := of_bind_eq_ok hrun
  obtain ⟨hstay, hview⟩ := h.readReservedRaw hread
  rw [hstay] at hrest
  have hlen := h.length hview hle
  obtain ⟨data₁, w₃, hslot, hrest⟩ := of_bind_eq_ok hrest
  obtain ⟨hslot, hstay⟩ := Format.of_lift_ok hslot
  rw [hstay] at hrest
  obtain ⟨hfit, rfl⟩ := of_putU32 hslot
  have hlen₁ : (splice data (INDEX_BLOCK_HEADER_SIZE + off * 4) (enc32 n)).length = data.length :=
    length_splice (by rw [length_enc32]; exact hfit)
  rw [bind_of_ok (rfl : (get : WriterM Writer) _ = .ok _ _)] at hrest
  obtain ⟨data₂, w₄, hstamp, hrest⟩ := of_bind_eq_ok hrest
  obtain ⟨hstamp, hstay⟩ := Format.of_lift_ok hstamp
  rw [hstay] at hrest
  obtain ⟨hfit₂, rfl⟩ := of_putU32 hstamp
  have hlen₂ : (splice (splice data (INDEX_BLOCK_HEADER_SIZE + off * 4) (enc32 n)) 4
      (enc32 w₁.datestamp)).length = data.length :=
    (length_splice (by rw [length_enc32]; exact hfit₂)).trans hlen₁
  refine ⟨data, _, hview, ⟨hlen₂.trans hlen, fun o => ?_⟩,
    h.writeReserved hb (hlen₂.trans hlen) hrest⟩
  rw [indexEntry_header (by rw [length_enc32]; exact hfit₂) (by rw [length_enc32]; decide),
    indexEntry_splice hfit, Nat.mod_eq_of_lt (show n < 2 ^ 32 from hn)]

theorem of_putU16 {data data' : Bytes} {pos v : ℕ} (h : putU16 data pos v = .ok data') :
    pos + 2 ≤ data.length ∧ data' = splice data pos (enc16 v) := by
  unfold putU16 putBytes at h
  rw [length_enc16] at h
  split at h
  · cases h
    exact ⟨‹_›, rfl⟩
  · cases h

/-- The header of a new block. -/
theorem Ahead.newBlock (h : Ahead w w₁ view free) {size id n : ℕ} (hsize : size = w.resblocksize)
    {α : Type} {a : α} {k : Bytes → WriterM α} (hrun : (do
      let data ← putU16 (List.replicate size 0) 0 id
      let ds ← Writer.nextDatestamp
      let data ← putU32 data 4 ds
      let data ← putU32 data 8 n
      k data : WriterM α) w₁ = .ok a w₂) : ∃ data w₃, data.length = w.resblocksize ∧
      (∀ o, indexEntry data o = 0) ∧ be16 data 0 = id % 2 ^ 16 ∧ Ahead w w₃ view free ∧
      k data w₃ = .ok a w₂ := by
  obtain ⟨data₁, w₃, hid, hrest⟩ := of_bind_eq_ok hrun
  obtain ⟨hid, hstay⟩ := Format.of_lift_ok hid
  rw [hstay] at hrest
  obtain ⟨hfit₁, rfl⟩ := of_putU16 hid
  obtain ⟨ds, w₄, hds, hrest⟩ := of_bind_eq_ok hrest
  obtain ⟨data₂, w₅, hstamp, hrest⟩ := of_bind_eq_ok hrest
  obtain ⟨hstamp, hstay⟩ := Format.of_lift_ok hstamp
  rw [hstay] at hrest
  obtain ⟨hfit₂, rfl⟩ := of_putU32 hstamp
  obtain ⟨data₃, w₆, hseq, hrest⟩ := of_bind_eq_ok hrest
  obtain ⟨hseq, hstay⟩ := Format.of_lift_ok hseq
  rw [hstay] at hrest
  obtain ⟨hfit₃, rfl⟩ := of_putU32 hseq
  refine ⟨_, w₄, (length_splice (by rw [length_enc32]; exact hfit₃)).trans
    ((length_splice (by rw [length_enc32]; exact hfit₂)).trans
      ((length_splice (by rw [length_enc16]; exact hfit₁)).trans
        (List.length_replicate.trans hsize))), fun o => ?_, ?_, h.nextDatestamp hds, hrest⟩
  · rw [indexEntry_header (by rw [length_enc32]; exact hfit₃) (by rw [length_enc32]; decide),
      indexEntry_header (by rw [length_enc32]; exact hfit₂) (by rw [length_enc32]; decide),
      indexEntry_header (by rw [length_enc16]; exact hfit₁) (by rw [length_enc16]; decide),
      indexEntry_replicate]
  · rw [be16_splice_ne (by rw [length_enc32]; exact hfit₃) (Or.inl (by omega)),
      be16_splice_ne (by rw [length_enc32]; exact hfit₂) (Or.inl (by omega))]
    exact be16_splice_self hfit₁

theorem Ahead.invalidate (h : Ahead w w₁ view free) (b : ℕ) :
    Ahead w (Writer.invalidate b w₁) view free :=
  { h with
    cache := h.cache.invalidate b
    queued := ⟨h.queued.grid, h.queued.nodup, h.queued.length⟩ }

theorem of_onCache {α : Type} {f : Device → CacheM α} {a : α}
    (h : Writer.onVol (Volume.onCache f) w₁ = .ok a w₂) :
    ∃ c, f w₁.vol.dev w₁.vol.cache = .ok a c ∧
      w₂ = Writer.setVol { w₁.vol with cache := c } w₁ := of_onVol_onCache h

/-- The cached read of a super block. -/
theorem Ahead.readReserved (h : Ahead w w₁ view free) {b size : ℕ} (hsize : size = w.resblocksize)
    (hb : w.Reserved b) {data : Bytes} (hrun : Writer.onVol (Volume.onCache fun dev =>
      BlockCache.readReserved dev b size) w₁ = .ok data w₂) :
    w.vol.dev.readReserved w.resblocksize b = .ok data ∧ Ahead w w₂ view free := by
  obtain ⟨c, hread, rfl⟩ := of_onCache hrun
  rw [hsize, h.dev] at hread
  have hreads := @BlockCache.readReserved_shows w.vol.dev w.resblocksize w.Reserved b hb
  cases hr : w.vol.dev.readReserved w.resblocksize b with
  | error f =>
      rw [hr] at hreads
      obtain ⟨c', hcon, -⟩ := hreads.raise h.cache
      rw [hread] at hcon
      cases hcon
  | ok data' =>
      rw [hr] at hreads
      obtain ⟨_, c', hok, rfl, hc'⟩ := hreads.ok h.cache
      rw [hread] at hok
      cases hok
      exact ⟨rfl,
        { h with
          cache := hc'
          queued := ⟨h.queued.grid, h.queued.nodup, h.queued.length⟩ }⟩

/-- The last steps of a call. -/
theorem Ahead.register (h : Ahead w w₁ view free) (hle : w.rescluster * 512 ≤ w.resblocksize)
    {b off n blk blk' : ℕ} (hb : w.OnGrid b) (hn : n < U32) (hrun : (do
      Writer.putIndexEntry b off n
      modify (Writer.invalidate blk)
      pure blk : WriterM ℕ) w₁ = .ok blk' w₂) : blk = blk' ∧ ∃ data data' : Bytes,
      view b = .ok data ∧ w.Patched data data' off n ∧
      Ahead w w₂ (Function.update view b (.ok data')) free := by
  obtain ⟨_, w₃, hput, hrest⟩ := of_bind_eq_ok hrun
  obtain ⟨data, data', hview, hpatch, hahead⟩ := h.putIndexEntry hle hb hn hput
  cases hrest
  exact ⟨rfl, data, data', hview, hpatch, hahead.invalidate blk⟩

end Ahead

/-! ## Registering a block -/

/-- A reserved block that is in use. -/
def InUse (w : Writer) (b : ℕ) : Prop :=
  ∃ k, b = w.firstreserved + k * w.rescluster ∧ w.isFree k = false

/-- The index of a volume: super blocks, index blocks and anode blocks are distinct and in use, as
is the rootblock cluster. -/
structure Indexed (w : Writer) : Prop where
  anodes : w.vol.anodes = .new w.vol.rootblock w.vol.rootblockExt
  indexPerBlock : w.indexPerBlock = w.vol.rootblock.indexPerBlock
  rootblock : ∀ k, w.isFree k = true → w.vol.rootblock.rblkcluster ≤ k * w.rescluster
  apart : w.vol.anodes.Apart w.blockOf
  inUse : ∀ p b, b ≠ 0 → w.vol.anodes.placeIn w.blockOf p = .ok b → w.InUse b
  behind : ∀ p b, b ≠ 0 → w.vol.anodes.placeIn w.blockOf p = .ok b →
    w.firstreserved + w.vol.rootblock.rblkcluster ≤ b

section Register

variable {w w₁ w₂ : Writer}

theorem InUse.onGrid {b : ℕ} (h : w.InUse b) : w.OnGrid b := by
  obtain ⟨k, hb, -⟩ := h
  exact ⟨k, hb⟩

theorem Indexed.reserved (hx : w.Indexed) {p : Place} {b : ℕ} (hne : b ≠ 0)
    (h : w.vol.anodes.placeIn w.blockOf p = .ok b) : w.Reserved b :=
  ⟨(hx.inUse p b hne h).onGrid, hx.behind p b hne h⟩

/-- A block in use is not one that was free. -/
theorem InUse.ne {b k : ℕ} (h : w.InUse b) (hpos : 0 < w.rescluster) (hk : w.isFree k = true) :
    b ≠ w.firstreserved + k * w.rescluster := by
  obtain ⟨k', rfl, hused⟩ := h
  intro hcon
  have heq := Nat.eq_of_mul_eq_mul_right hpos (Nat.add_left_cancel hcon)
  rw [heq, hk] at hused
  cases hused

theorem Stable.readReserved_eq (hw : w.Stable) :
    w.vol.dev.readReserved w.resblocksize = w.blockOf := by
  funext b
  unfold blockOf Device.readReserved
  rw [hw.pending, hw.sectors.max_eq]
  rfl

theorem readU32_eq_indexEntry {data : Bytes} {off n : ℕ}
    (h : readU32 data (INDEX_BLOCK_HEADER_SIZE + off * 4) = .ok n) : n = indexEntry data off := by
  unfold readU32 at h
  split at h
  · cases h
    rw [indexEntry, if_neg (by omega)]
  · cases h

/-- The entry goes into the index block, which may have to be added to its super block. -/
theorem of_allocAnodeBlock {view : ℕ → Except Fault Bytes} {free : ℕ → Bool} {w' : Writer}
    (hw : w.Stable) (hx : w.Indexed) (h : Ahead w w' view free)
    (hless : ∀ k, free k = true → w.isFree k = true) {s blk : ℕ}
    (hrun : allocAnodeBlock s w' = .ok blk w₁) : ∃ k fresh,
      blk = w.firstreserved + k * w.rescluster ∧ free k = true ∧
      be16 fresh 0 = ABLKID ∧ fresh.length = w.resblocksize ∧
      ((∃ idx data data', idx ≠ 0 ∧
          w.vol.anodes.indexIn w.blockOf (s / w.indexPerBlock) = .ok idx ∧
          view idx = .ok data ∧ w.Patched data data' (s % w.indexPerBlock) blk ∧
          Ahead w w₁ (Function.update (Function.update view blk (.ok fresh)) idx (.ok data'))
            (Function.update free k false)) ∨
        ∃ k' sup idx sdata sdata' idata, w.vol.anodes.isLarge = true ∧
          sup = w.vol.anodes.superindex.getD (s / w.indexPerBlock / w.indexPerBlock) 0 ∧
          sup ≠ 0 ∧ w.vol.anodes.indexIn w.blockOf (s / w.indexPerBlock) = .ok 0 ∧
          view sup = .ok sdata ∧
          idx = w.firstreserved + k' * w.rescluster ∧ k' ≠ k ∧ free k' = true ∧
          w.Patched [] idata (s % w.indexPerBlock) blk ∧
          w.Patched sdata sdata' (s / w.indexPerBlock % w.indexPerBlock) idx ∧
          Ahead w w₁ (Function.update (Function.update (Function.update view blk (.ok fresh))
              idx (.ok idata)) sup (.ok sdata'))
            (Function.update (Function.update free k false) k' false)) := by
  have hs := hw.sectors
  unfold Writer.allocAnodeBlock at hrun
  obtain ⟨b, w', halloc, hrun₁⟩ := of_bind_eq_ok hrun
  obtain ⟨hlt, k, hb, hfree, hahead⟩ := h.allocReservedBlock halloc
  rw [bind_of_ok (rfl : (get : WriterM Writer) _ = .ok _ _)] at hrun₁
  obtain ⟨fresh, w₃, hlen, -, hid, hahead, hrun₂⟩ := hahead.newBlock hahead.resblocksize hrun₁
  obtain ⟨_, w₄, hwrite, hrun₃⟩ := of_bind_eq_ok hrun₂
  have hgrid : w.OnGrid b := ⟨k, hb⟩
  have hahead := hahead.writeReserved hgrid hlen hwrite
  rw [bind_of_ok (rfl : (get : WriterM Writer) _ = .ok _ _)] at hrun₃
  obtain ⟨m, hrb⟩ := hahead.rootblock
  have hdiv : s / (w.indexPerBlock * w.indexPerBlock) = s / w.indexPerBlock / w.indexPerBlock :=
    (Nat.div_div_eq_div_mul ..).symm
  have hmid : s % (w.indexPerBlock * w.indexPerBlock) / w.indexPerBlock =
      s / w.indexPerBlock % w.indexPerBlock := Nat.mod_mul_right_div_self ..
  have hlow : s % (w.indexPerBlock * w.indexPerBlock) % w.indexPerBlock = s % w.indexPerBlock :=
    Nat.mod_mul_left_mod ..
  have hlarge : w₄.vol.rootblock.isLarge = w.vol.anodes.isLarge := by rw [hrb, hx.anodes]; rfl
  have hsuper : ((w.vol.rootblockExt.map RootblockExt.superindex).getD []) =
      w.vol.anodes.superindex := by rw [hx.anodes]; rfl
  have hblocks : w₄.vol.rootblock.indexblocks = w.vol.anodes.indexblocks := by
    rw [hrb, hx.anodes]
    rfl
  have hipb : w.vol.anodes.indexPerBlock = w.indexPerBlock := by
    rw [hx.indexPerBlock, hx.anodes]
    rfl
  have hold : ∀ p x, x ≠ 0 → w.vol.anodes.placeIn w.blockOf p = .ok x →
      Function.update view b (.ok fresh) x = view x := fun p x hne hplace =>
    Function.update_of_ne (hb ▸ (hx.inUse p x hne hplace).ne hs.pos (hless k hfree)) _ _
  dsimp only at hrun₃
  rw [hahead.indexPerBlock, hahead.ext, hahead.resblocksize, hlarge, hsuper, hblocks, hdiv, hmid,
    hlow] at hrun₃
  rw [if_neg (hipb ▸ hw.anodes.index)] at hrun₃
  by_cases hl : w.vol.anodes.isLarge = true
  · rw [if_pos hl] at hrun₃
    have hplace := @AnodeReader.super_place _ w.blockOf hl (s / w.indexPerBlock / w.indexPerBlock)
    by_cases hzero :
        w.vol.anodes.superindex.getD (s / w.indexPerBlock / w.indexPerBlock) 0 = 0
    · rw [if_pos hzero] at hrun₃
      cases hrun₃
    · rw [if_neg hzero] at hrun₃
      obtain ⟨sdata, w₅, hread, hrun₄⟩ := of_bind_eq_ok hrun₃
      obtain ⟨hsdata, hahead⟩ := hahead.readReserved rfl (hx.reserved hzero hplace) hread
      rw [hw.readReserved_eq] at hsdata
      obtain ⟨idx, w₆, hentry, hrun₅⟩ := of_bind_eq_ok hrun₄
      obtain ⟨hentry, hstay⟩ := Format.of_lift_ok hentry
      rw [hstay] at hrun₅
      have hidx := readU32_eq_indexEntry hentry
      have hindex : w.vol.anodes.indexIn w.blockOf (s / w.indexPerBlock) = .ok idx := by
        rw [AnodeReader.indexIn, if_pos hl, hipb]
        dsimp only
        rw [if_neg hzero, AnodeReader.entryIn_ok hsdata, hidx]
      by_cases hnew : idx = 0
      · rw [if_pos hnew] at hrun₅
        obtain ⟨b', w₇, halloc', hrun₆⟩ := of_bind_eq_ok hrun₅
        obtain ⟨hlt', k', hb', hfree', hahead⟩ := hahead.allocReservedBlock halloc'
        have hkk : k' ≠ k := by
          intro hcon
          rw [hcon, Function.update_self] at hfree'
          cases hfree'
        rw [Function.update_of_ne hkk] at hfree'
        obtain ⟨idata₀, w₈, hlen₀, hempty, -, hahead, hrun₇⟩ := hahead.newBlock rfl hrun₆
        obtain ⟨idata, w₉, hslot, hrun₈⟩ := of_bind_eq_ok hrun₇
        obtain ⟨hslot, hstay⟩ := Format.of_lift_ok hslot
        rw [hstay] at hrun₈
        obtain ⟨hfit, rfl⟩ := of_putU32 hslot
        have hlen₁ := (@length_splice idata₀ (enc32 b) _ (by rw [length_enc32]; exact hfit)).trans
          hlen₀
        obtain ⟨_, w₁₀, hwrite', hrun₉⟩ := of_bind_eq_ok hrun₈
        have hahead := hahead.writeReserved ⟨k', hb'⟩ hlen₁ hwrite'
        obtain ⟨rfl, data, data', hdata, hpatch, hahead⟩ := hahead.register hs.le
          (hx.inUse (.super _) _ hzero hplace).onGrid hlt' hrun₉
        have hpatch' : w.Patched [] (splice idata₀ (INDEX_BLOCK_HEADER_SIZE +
            s % w.indexPerBlock * 4) (enc32 b)) (s % w.indexPerBlock) b := by
          refine ⟨hlen₁, fun o => ?_⟩
          rw [indexEntry_splice hfit, hempty, Nat.mod_eq_of_lt (show b < 2 ^ 32 from hlt)]
          rfl
        rw [Function.update_of_ne (hb' ▸ (hx.inUse (.super _) _ hzero hplace).ne hs.pos
          (hless k' hfree')), hold (.super _) _ hzero hplace] at hdata
        exact ⟨k, fresh, hb, hfree, hid, hlen, Or.inr ⟨k', _, b', data, data', _, hl, rfl, hzero,
          hnew ▸ hindex, hdata, hb', hkk, hfree', hpatch', hpatch, hahead⟩⟩
      · rw [if_neg hnew] at hrun₅
        obtain ⟨rfl, data, data', hdata, hpatch, hahead⟩ := hahead.register hs.le
          (hx.inUse (.index _) _ hnew hindex).onGrid hlt hrun₅
        rw [hold (.index _) _ hnew hindex] at hdata
        exact ⟨k, fresh, hb, hfree, hid, hlen,
          Or.inl ⟨idx, data, data', hnew, hindex, hdata, hpatch, hahead⟩⟩
  · rw [if_neg hl] at hrun₃
    by_cases hzero : w.vol.anodes.indexblocks.getD (s / w.indexPerBlock) 0 = 0
    · rw [if_pos hzero] at hrun₃
      cases hrun₃
    · rw [if_neg hzero] at hrun₃
      have hindex : w.vol.anodes.indexIn w.blockOf (s / w.indexPerBlock) =
          .ok (w.vol.anodes.indexblocks.getD (s / w.indexPerBlock) 0) := if_neg hl
      obtain ⟨rfl, data, data', hdata, hpatch, hahead⟩ := hahead.register hs.le
        (hx.inUse (.index _) _ hzero hindex).onGrid hlt hrun₃
      rw [hold (.index _) _ hzero hindex] at hdata
      exact ⟨k, fresh, hb, hfree, hid, hlen,
        Or.inl ⟨_, data, data', hzero, hindex, hdata, hpatch, hahead⟩⟩

theorem Alike.sectors (h : Alike w w₁) (hs : w.Sectors) : w₁.Sectors := by
  refine ⟨?_, ?_⟩
  · rw [h.rescluster, h.resblocksize]
    exact hs.rescluster
  · rw [h.rescluster]
    exact hs.pos

theorem Alike.reserved (h : Alike w w₁) : w₁.Reserved = w.Reserved := by
  obtain ⟨m, hrb⟩ := h.rootblock
  have hcluster : w₁.vol.rootblock.rblkcluster = w.vol.rootblock.rblkcluster := by rw [hrb]
  funext b
  unfold Reserved OnGrid
  rw [h.firstreserved, h.rescluster, hcluster]

theorem Alike.kept (h : Alike w w₁) : w₁.kept = w.kept := by
  funext data
  rw [Writer.kept, Writer.kept, h.rescluster, h.resblocksize]

/-- What is read on the volume after the commit. -/
structure CommittedTo (w w' : Writer) (view : ℕ → Except Fault Bytes) (free : ℕ → Bool) : Prop
    extends Alike w w' where
  cache : w'.vol.cache.Shows w'.vol.dev w.resblocksize w.Reserved
  pending : w'.pendingWrites = []
  readReserved : w'.vol.dev.readReserved w.resblocksize = w'.blockOf
  blocks : ∀ b, w.Reserved b → w'.blockOf b = (view b).map w.kept
  free : w'.isFree = free

theorem Ahead.commit {view : ℕ → Except Fault Bytes} {free : ℕ → Bool}
    (h : Ahead w w₁ view free) (hs : w.Sectors) (hcommit : updateRootblock w₁ = .ok () w₂) :
    CommittedTo w w₂ view free := by
  have hs₁ := h.sectors hs
  have hres := h.reserved
  have hshows := shows_commit hs₁ h.queued hcommit
    (by rw [hres, h.dev, h.resblocksize]; exact h.cache)
  have hreads : ∀ b, w.Reserved b →
      w₂.vol.dev.readReserved w₁.resblocksize b = (w₁.blockOf b).map w₁.kept := fun b hb => by
    rw [← hres] at hb
    exact readReserved_commit hs₁ h.queued hcommit hb.1 hb.2
  obtain ⟨-, -, ws, -, rfl⟩ := of_updateRootblock hcommit
  rw [h.resblocksize, hres] at hshows
  rw [h.resblocksize, h.kept, h.blocks] at hreads
  have heq : ∀ d : Device, d.readReserved w.resblocksize =
      fun b => d.readBlocks b w₁.rescluster w₁.resblocksize := fun d => by
    funext b
    rw [Device.readReserved, hs.max_eq, h.rescluster, h.resblocksize]
  refine
    { h with
      cache := hshows
      pending := rfl
      readReserved := heq _
      blocks := fun b hb => ?_
      free := h.free }
  have hread := hreads b hb
  rw [heq] at hread
  exact hread

theorem CommittedTo.stable {view : ℕ → Except Fault Bytes} {free : ℕ → Bool}
    (h : CommittedTo w w₂ view free) (hw : w.Stable) : w₂.Stable where
  cache := by
    rw [h.resblocksize, h.reserved]
    exact h.cache
  anodes := h.anodes ▸ hw.anodes
  anodesRbs := by rw [h.anodes, h.resblocksize, hw.anodesRbs]
  sectors := h.sectors hw.sectors
  pending := h.pending

/-- A block that was free and is in use now. -/
def Taken (w w' : Writer) (b : ℕ) : Prop :=
  ∃ k, b = w.firstreserved + k * w.rescluster ∧ w.isFree k = true ∧ w'.isFree k = false

theorem Taken.reserved {b : ℕ} (h : Taken w w₂ b) (hx : w.Indexed) : w.Reserved b := by
  obtain ⟨k, rfl, hfree, -⟩ := h
  exact ⟨⟨k, rfl⟩, Nat.add_le_add_left (hx.rootblock k hfree) _⟩

/-- What the reader finds for a sequence number. -/
def resolved (w : Writer) (seqnr : ℕ) : Except Fault ℕ :=
  outcome (w.vol.anodes.resolveAnodeBlock seqnr w.vol.dev w.vol.cache)

/-- What the reader finds for an anode. -/
def anodeOf (w : Writer) (anodenr : ℕ) : Except Fault Anode :=
  outcome (w.vol.anodes.getAnode anodenr w.vol.dev w.vol.cache)

/-- The block `blk` is registered for the sequence number `s`, and for nothing else. -/
structure Registered (w w' : Writer) (s blk : ℕ) : Prop where
  resolves : w'.resolved s = .ok blk
  elsewhere : ∀ s', s' ≠ s → w'.resolved s' = w.resolved s'
  anodes : ∀ nr an, w.anodeOf nr = .ok an → w'.anodeOf nr = .ok an
  taken : Taken w w' blk
  /-- So is an index block that was added. -/
  index : ∀ i b, b ≠ 0 → w'.vol.anodes.indexIn w'.blockOf i = .ok b →
    w.vol.anodes.indexIn w.blockOf i ≠ .ok b → Taken w w' b

theorem Stable.resolved_eq (hw : w.Stable) (hx : w.Indexed) (s : ℕ) :
    w.resolved s = w.vol.anodes.resolveIn w.blockOf s := by
  have hreads := @AnodeReader.resolveAnodeBlock_reads w.vol.anodes w.vol.dev w.Reserved
    hw.anodes.index (fun n hl hne => hx.reserved hne (AnodeReader.super_place hl n))
    (by rw [hw.anodesRbs, hw.readReserved_eq]; exact fun i b hb hne => hx.reserved (p := .index i) hne hb) s
  rw [hw.anodesRbs, hw.readReserved_eq] at hreads
  exact outcome_of_reads hreads hw.cache

theorem Stable.anodeOf_eq (hw : w.Stable) (hx : w.Indexed) (nr : ℕ) :
    w.anodeOf nr = w.vol.anodes.anodeIn w.blockOf nr := by
  have hreads := @AnodeReader.getAnode_reads w.vol.anodes w.vol.dev w.Reserved
    hw.anodes (fun n hl hne => hx.reserved hne (AnodeReader.super_place hl n))
    (by rw [hw.anodesRbs, hw.readReserved_eq]; exact fun i b hb hne => hx.reserved (p := .index i) hne hb)
    (by rw [hw.anodesRbs, hw.readReserved_eq]; exact fun s b hb hne => hx.reserved (p := .anode s) hne hb) nr
  rw [hw.anodesRbs, hw.readReserved_eq] at hreads
  exact outcome_of_reads hreads hw.cache

theorem kept_readBlocks (hs : w.Sectors) {d : Device} {b : ℕ} {data : Bytes}
    (h : d.readBlocks b w.rescluster w.resblocksize = .ok data) : w.kept data = data := by
  have hle := hs.le
  have hsector : SECTOR_SIZE = 512 := rfl
  unfold Device.readBlocks at h
  rw [hsector, if_neg (by omega)] at h
  split at h
  · cases h
  · injection h with hdata
    rw [kept, ← hdata, List.take_left' (d.length_bytesAt b w.rescluster)]

theorem Stable.kept_eq (hw : w.Stable) {b : ℕ} {data : Bytes}
    (h : w.blockOf b = .ok data) : w.kept data = data := by
  unfold blockOf at h
  rw [hw.pending] at h
  exact kept_readBlocks hw.sectors h

/-- A block that the call left alone. -/
theorem CommittedTo.blockOf_eq {view : ℕ → Except Fault Bytes} {free : ℕ → Bool}
    (hw : w.Stable) (h : CommittedTo w w₂ view free) {b : ℕ} (hb : w.Reserved b)
    (hview : view b = w.blockOf b) : w₂.blockOf b = w.blockOf b := by
  rw [h.blocks b hb, hview]
  cases hold : w.blockOf b with
  | error f => rfl
  | ok data => rw [Except.map, hw.kept_eq hold]

/-- The entries of an index block that was patched and flushed. -/
theorem Patched.kept {data data' : Bytes} {off n : ℕ} (h : w.Patched data data' off n)
    (hs : w.Sectors) (hlost : ∀ o, ¬ w.Within o → indexEntry data o = 0) (o : ℕ) :
    indexEntry (w.kept data') o =
      if o = off then (if w.Within off then n else 0) else indexEntry data o := by
  rw [indexEntry_kept hs h.length, h.entry]
  by_cases ho : o = off
  · subst ho
    rw [if_pos rfl, if_pos rfl]
  · rw [if_neg ho, if_neg ho]
    split
    · rfl
    · exact (hlost o ‹_›).symm

theorem Stable.lost (hw : w.Stable) {b : ℕ} {data : Bytes} (h : w.blockOf b = .ok data)
    (o : ℕ) (ho : ¬ w.Within o) : indexEntry data o = 0 := by
  have hs := hw.sectors
  have hlen : data.length = w.resblocksize := hw.ahead.length h hs.le
  rw [← hw.kept_eq h, indexEntry_kept hs hlen, if_neg ho]

/-- The reader on the volume after the commit, for a table with one more anode block, or none. -/
theorem registered_iff {view : ℕ → Except Fault Bytes} {free : ℕ → Bool} {s blk n : ℕ}
    (hw : w.Stable) (hx : w.Indexed) (h : CommittedTo w w₂ view free)
    (hzero : w.resolved s = .ok 0) (htaken : Taken w w₂ blk) (hn : n = 0 ∨ n = blk)
    (hthere : w.vol.anodes.resolveIn w₂.blockOf s = .ok n)
    (helse : ∀ s', s' ≠ s → w.vol.anodes.resolveIn w₂.blockOf s' =
      w.vol.anodes.resolveIn w.blockOf s')
    (hindex : ∀ i b, b ≠ 0 → w.vol.anodes.indexIn w₂.blockOf i = .ok b →
      w.vol.anodes.indexIn w.blockOf i = .ok b ∨ Taken w w₂ b)
    (hview : ∀ s' b, b ≠ 0 → w.vol.anodes.resolveIn w.blockOf s' = .ok b →
      w₂.blockOf b = w.blockOf b) : Registered w w₂ s blk ↔ n = blk := by
  rw [hw.resolved_eq hx] at hzero
  have hsuper : ∀ m, w.vol.anodes.isLarge = true → w.vol.anodes.superindex.getD m 0 ≠ 0 →
      w.Reserved (w.vol.anodes.superindex.getD m 0) := fun m hl hne =>
    hx.reserved hne (AnodeReader.super_place hl m)
  have hidx : ∀ i b, w.vol.anodes.indexIn w₂.blockOf i = .ok b → b ≠ 0 → w.Reserved b :=
    fun i b hb hne => by
      rcases hindex i b hne hb with hold | hnew
      · exact hx.reserved (p := .index i) hne hold
      · exact hnew.reserved hx
  have hanode : ∀ s' b, w.vol.anodes.resolveIn w₂.blockOf s' = .ok b → b ≠ 0 → w.Reserved b :=
    fun s' b hb hne => by
      by_cases hs : s' = s
      · rw [hs, hthere] at hb
        cases hb
        rcases hn with rfl | rfl
        · exact absurd rfl hne
        · exact htaken.reserved hx
      · rw [helse s' hs] at hb
        exact hx.reserved (p := .anode s') hne hb
  have hres : ∀ s', w₂.resolved s' = w.vol.anodes.resolveIn w₂.blockOf s' := fun s' => by
    have hreads := @AnodeReader.resolveAnodeBlock_reads w.vol.anodes w₂.vol.dev w.Reserved
      hw.anodes.index hsuper (by rw [hw.anodesRbs, h.readReserved]; exact hidx) s'
    rw [hw.anodesRbs, h.readReserved] at hreads
    rw [resolved, h.anodes]
    exact outcome_of_reads hreads h.cache
  have han : ∀ nr, w₂.anodeOf nr = w.vol.anodes.anodeIn w₂.blockOf nr := fun nr => by
    have hreads := @AnodeReader.getAnode_reads w.vol.anodes w₂.vol.dev w.Reserved
      hw.anodes hsuper (by rw [hw.anodesRbs, h.readReserved]; exact hidx)
      (by rw [hw.anodesRbs, h.readReserved]; exact hanode) nr
    rw [hw.anodesRbs, h.readReserved] at hreads
    rw [anodeOf, h.anodes]
    exact outcome_of_reads hreads h.cache
  constructor
  · intro hr
    have hblk := hr.resolves
    rw [hres, hthere] at hblk
    injection hblk
  · rintro rfl
    exact
      { resolves := (hres s).trans hthere
        elsewhere := fun s' hne => by rw [hres, hw.resolved_eq hx, helse s' hne]
        anodes := fun nr an hread => by
          rw [hw.anodeOf_eq hx] at hread
          rw [han]
          exact AnodeReader.anodeIn_of_elsewhere hzero helse hview hread
        taken := htaken
        index := fun i b hne hb hold => by
          rw [h.anodes] at hb
          exact (hindex i b hne hb).resolve_left hold }

/-- The entries for `s` lie in the sectors of their blocks: the one of the index block, and that of
its super block where the index block has to be added. -/
def EntriesWithin (w : Writer) (s : ℕ) : Prop :=
  w.Within (s % w.indexPerBlock) ∧
    (w.vol.anodes.indexIn w.blockOf (s / w.indexPerBlock) = .ok 0 →
      w.Within (s / w.indexPerBlock % w.indexPerBlock))

theorem Indexed.ipb (hx : w.Indexed) : w.vol.anodes.indexPerBlock = w.indexPerBlock := by
  rw [hx.indexPerBlock, hx.anodes]
  rfl

theorem allocAnodeBlock_registers_iff (hw : w.Committed) (hx : w.Indexed) {s blk : ℕ}
    (hzero : w.resolved s = .ok 0) (hrun : allocAnodeBlock s w = .ok blk w₁)
    (hcommit : updateRootblock w₁ = .ok () w₂) :
    Registered w w₂ s blk ↔ w.EntriesWithin s := by
  have hs := hw.stable.sectors
  have hroom := (of_updateRootblock hcommit).1
  have hipb := hx.ipb
  obtain ⟨k, fresh, hblk, hfree, -, -, hcases⟩ := of_allocAnodeBlock hw.stable hx hw.stable.ahead
    (fun _ hk => hk) hrun
  have hne : ∀ p b, b ≠ 0 → w.vol.anodes.placeIn w.blockOf p = .ok b → b ≠ blk :=
    fun p b hb hplace => hblk ▸ (hx.inUse p b hb hplace).ne hs.pos hfree
  have hpos : w₁.vol.rootblock.rblkcluster = w.vol.rootblock.rblkcluster → blk ≠ 0 := by
    intro hcluster
    have hbehind := hx.rootblock k hfree
    omega
  unfold EntriesWithin
  rw [← hipb] at hcases ⊢
  rcases hcases with ⟨idx, data, data', hidx, hindex, hdata, hpatch, hahead⟩ |
    ⟨k', sup, idx, sdata, sdata', idata, hlarge, rfl, hsup, hold, hsdata, hidx, hkk,
      hfree', hpatch, hpatch', hahead⟩
  · have h := hahead.commit hs hcommit
    have hblk0 : blk ≠ 0 := hpos (by obtain ⟨m, hm⟩ := hahead.rootblock; rw [hm])
    have hview : ∀ p b, b ≠ 0 → b ≠ idx → w.vol.anodes.placeIn w.blockOf p = .ok b →
        w₂.blockOf b = w.blockOf b := fun p b hb hbi hplace =>
      h.blockOf_eq hw.stable (hx.reserved hb hplace) (by
        rw [Function.update_of_ne hbi, Function.update_of_ne (hne p b hb hplace)])
    have hdata' : w₂.blockOf idx = .ok (w.kept data') := by
      rw [h.blocks idx (hx.reserved (p := .index _) hidx hindex), Function.update_self]
      rfl
    have hentry := hpatch.kept hs (hw.stable.lost hdata)
    obtain ⟨hindexes, hthere, helse⟩ := AnodeReader.entered_of_index hx.apart hindex hidx hdata
      hdata' (fun off hoff => by rw [hentry, if_neg hoff]) hview
    rw [hentry, if_pos rfl] at hthere
    have htaken : Taken w w₂ blk := ⟨k, hblk, hfree, by rw [h.free, Function.update_self]⟩
    have hiff := registered_iff hw.stable hx h hzero htaken (by split <;> simp) hthere helse
      (fun i b _ hb => Or.inl ((hindexes i).symm.trans hb)) fun s' b hb hplace =>
        hview (.anode s') b hb (fun hcon => by
          cases hx.apart (.anode s') (.index _) b hb hplace (hcon ▸ hindex)) hplace
    rw [hiff, hindex]
    by_cases hin : w.Within (s % w.vol.anodes.indexPerBlock)
    · rw [if_pos hin]
      exact ⟨fun _ => ⟨hin, fun hcon => absurd (Except.ok.inj hcon) hidx⟩, fun _ => rfl⟩
    · rw [if_neg hin]
      exact ⟨fun hcon => absurd hcon.symm hblk0, fun hcon => absurd hcon.1 hin⟩
  · generalize hs' : w.vol.anodes.superindex.getD (s / w.vol.anodes.indexPerBlock /
      w.vol.anodes.indexPerBlock) 0 = sup at hsup hsdata hahead
    have hplace : w.vol.anodes.placeIn w.blockOf
        (.super (s / w.vol.anodes.indexPerBlock / w.vol.anodes.indexPerBlock)) = .ok sup :=
      (AnodeReader.super_place hlarge _).trans (by rw [hs'])
    have h := hahead.commit hs hcommit
    have hblk0 : blk ≠ 0 := hpos (by obtain ⟨m, hm⟩ := hahead.rootblock; rw [hm])
    have hne' : ∀ p b, b ≠ 0 → w.vol.anodes.placeIn w.blockOf p = .ok b → b ≠ idx :=
      fun p b hb hplace => hidx ▸ (hx.inUse p b hb hplace).ne hs.pos hfree'
    have htaken : Taken w w₂ blk :=
      ⟨k, hblk, hfree, by rw [h.free, Function.update_of_ne hkk.symm, Function.update_self]⟩
    have htaken' : Taken w w₂ idx := ⟨k', hidx, hfree', by rw [h.free, Function.update_self]⟩
    have hview : ∀ p b, b ≠ 0 → b ≠ sup → w.vol.anodes.placeIn w.blockOf p = .ok b →
        w₂.blockOf b = w.blockOf b := fun p b hb hbs hplace =>
      h.blockOf_eq hw.stable (hx.reserved hb hplace) (by
        rw [Function.update_of_ne hbs, Function.update_of_ne (hne' p b hb hplace),
          Function.update_of_ne (hne p b hb hplace)])
    have hsdata' : w₂.blockOf sup = .ok (w.kept sdata') := by
      rw [h.blocks sup (hx.reserved hsup hplace), Function.update_self]
      rfl
    have hidata : w₂.blockOf idx = .ok (w.kept idata) := by
      rw [h.blocks idx (htaken'.reserved hx),
        Function.update_of_ne (hne' _ sup hsup hplace).symm, Function.update_self]
      rfl
    have hentry := hpatch.kept hs fun o _ => rfl
    have hentry' := hpatch'.kept hs (hw.stable.lost hsdata)
    have hempty : ∀ s', s' ≠ s → s' / w.vol.anodes.indexPerBlock = s / w.vol.anodes.indexPerBlock →
        w.vol.anodes.resolveIn w.blockOf s' = .ok 0 := fun s' _ hdiv => by
      rw [AnodeReader.resolveIn_of_index (hdiv ▸ hold), if_pos rfl]
    obtain ⟨hthere, hindexes, helse⟩ := @AnodeReader.entered_of_super w.vol.anodes w.blockOf
      w₂.blockOf s _ sdata (w.kept sdata') hx.apart hlarge (hs' ▸ hsup) (hs' ▸ hsdata)
      (hs' ▸ hsdata') hempty rfl (fun off hoff => by rw [hentry', if_neg hoff])
      (fun hnz => ⟨w.kept idata, by
        rw [hentry', if_pos rfl] at hnz ⊢
        split
        · exact hidata
        · rename_i hout
          rw [if_neg hout] at hnz
          exact absurd rfl hnz, fun off hoff => by
        rw [hentry, if_neg hoff]
        rfl⟩) (hs' ▸ hview)
    rw [hentry', if_pos rfl] at hthere
    have hidx0 : idx ≠ 0 := by
      have hbehind := hx.rootblock k' hfree'
      obtain ⟨m, hm⟩ := hahead.rootblock
      rw [hm] at hroom
      dsimp only at hroom
      omega
    have hfinds : w.vol.anodes.resolveIn w₂.blockOf s = .ok
        (if w.Within (s % w.vol.anodes.indexPerBlock) ∧ w.Within (s / w.vol.anodes.indexPerBlock %
          w.vol.anodes.indexPerBlock) then blk else 0) := by
      rw [AnodeReader.resolveIn_of_index hthere]
      by_cases hin' : w.Within (s / w.vol.anodes.indexPerBlock % w.vol.anodes.indexPerBlock)
      · rw [if_pos hin', if_neg hidx0, AnodeReader.entryIn_ok hidata, hentry, if_pos rfl]
        by_cases hin : w.Within (s % w.vol.anodes.indexPerBlock)
        · rw [if_pos hin, if_pos ⟨hin, hin'⟩]
        · rw [if_neg hin, if_neg fun hcon => hin hcon.1]
      · rw [if_neg hin', if_pos rfl, if_neg fun hcon => hin' hcon.2]
    have hiff := registered_iff hw.stable hx h hzero htaken (by split <;> simp) hfinds helse
      (fun i b hb hbi => by
        by_cases hi : i = s / w.vol.anodes.indexPerBlock
        · rw [hi, hthere] at hbi
          cases hbi
          split at hb
          · rename_i hin'
            rw [if_pos hin']
            exact Or.inr htaken'
          · exact absurd rfl hb
        · exact Or.inl ((hindexes i hi).symm.trans hbi)) fun s' b hb hplace' =>
        hview (.anode s') b hb (fun hcon => by
          cases hx.apart (.anode s') (.super _) b hb hplace' (hcon ▸ hplace)) hplace'
    rw [hiff, hold]
    by_cases hin : w.Within (s % w.vol.anodes.indexPerBlock) ∧ w.Within
        (s / w.vol.anodes.indexPerBlock % w.vol.anodes.indexPerBlock)
    · rw [if_pos hin]
      exact ⟨fun _ => ⟨hin.1, fun _ => hin.2⟩, fun _ => rfl⟩
    · rw [if_neg hin]
      exact ⟨fun hcon => absurd hcon.symm hblk0,
        fun hcon => absurd ⟨hcon.1, hcon.2 rfl⟩ hin⟩

/-- Reserved blocks of whole sectors have room for every entry. -/
theorem entriesWithin_of_dvd (hw : w.Committed) (hx : w.Indexed)
    (hdvd : SECTOR_SIZE ∣ w.resblocksize) (s : ℕ) : w.EntriesWithin s := by
  have hpos := Nat.pos_of_ne_zero hw.anodes.index
  have hsize : w.resblocksize = w.rescluster * SECTOR_SIZE := by
    rw [hw.rescluster, Nat.div_mul_cancel hdvd]
  have hrbs := hw.anodesRbs
  have hipb := hx.ipb
  have hindex : w.vol.anodes.indexPerBlock = w.resblocksize / 4 - 3 := by
    rw [← hrbs, hx.anodes]
    rfl
  have hwithin : ∀ off, off < w.indexPerBlock → w.Within off := by
    intro off hoff
    have hhead : INDEX_BLOCK_HEADER_SIZE = 12 := rfl
    unfold Within
    rw [← hsize, hhead]
    omega
  exact ⟨hwithin _ (Nat.mod_lt _ (hipb ▸ hpos)), fun _ => hwithin _ (Nat.mod_lt _ (hipb ▸ hpos))⟩

end Register

end Writer

/-! ## Volumes with one anode block -/

/-- A device of 20 blocks with an empty volume: an index block at 4, an anode block at 5, the root
directory at 6, and three free reserved blocks of one sector. -/
def oneAnodeBlock (rbs : ℕ) : Device where
  sectors
    | 2 => .ofFields [(0, enc32 ID_PFS_DISK), (RB_OFF_OPTIONS, enc32 MODE_SPLITTED_ANODES),
        (RB_OFF_LASTRESERVED, enc32 9), (RB_OFF_FIRSTRESERVED, enc32 2),
        (RB_OFF_RESERVED_FREE, enc32 3), (RB_OFF_RESERVED_BLKSIZE, enc16 rbs),
        (RB_OFF_RBLKCLUSTER, enc16 2), (RB_OFF_DISKSIZE, enc32 20), (0x74, enc32 4)]
    | 3 => .ofFields [(12, enc32 0x07000000)]
    | 4 => .ofFields [(0, enc16 IBLKID), (12, enc32 5)]
    | 5 => .ofFields [(0, enc16 ABLKID), (76, rootSlots)]
    | 6 => .ofFields [(0, enc16 DBLKID)]
    | _ => .ofFields []
  total := 20
  writable := true
  faults _ := false
  attempts := 0
  log := []

/-- Its rootblock. -/
def oneAnodeBlockRoot (rbs : ℕ) : Rootblock where
  disktype := ID_PFS_DISK
  options := MODE_SPLITTED_ANODES
  datestamp := 0
  diskname := []
  lastreserved := 9
  firstreserved := 2
  reservedFree := 3
  reservedBlksize := rbs
  rblkcluster := 2
  blocksfree := 0
  alwaysfree := 0
  disksize := 20
  extension := 0
  bitmapindex := List.replicate 5 0
  indexblocks := 4 :: List.replicate 98 0

def oneAnodeBlockVolume (rbs : ℕ) : Volume :=
  ⟨oneAnodeBlock rbs, .new, oneAnodeBlockRoot rbs, none, .new (oneAnodeBlockRoot rbs) none,
    .new (oneAnodeBlockRoot rbs)⟩

theorem fromDevice_oneAnodeBlock {rbs : ℕ} (hrbs : 64 ≤ rbs)
    (hone : Rootblock.parse ((oneAnodeBlock rbs).bytesAt 2 1) = .ok (oneAnodeBlockRoot rbs))
    (htwo : Rootblock.parse ((oneAnodeBlock rbs).bytesAt 2 2) = .ok (oneAnodeBlockRoot rbs)) :
    Volume.fromDevice (oneAnodeBlock rbs) = .ok (oneAnodeBlockVolume rbs) := by
  have hext : (oneAnodeBlockRoot rbs).hasExtension = false :=
    (by decide : ((MODE_SPLITTED_ANODES &&& MODE_EXTENSION != 0) && 0 != 0) = false)
  exact Volume.fromDevice_of_parse (by decide : 4 ≤ 20) hone htwo rfl hrbs hext

/-- Two of its places have a block. -/
theorem Writer.places_oneAnodeBlock {rbs : ℕ} {w : Writer} {data : Bytes}
    (hvol : (oneAnodeBlockVolume rbs).Like w.vol)
    (hipb : w.indexPerBlock = (oneAnodeBlockRoot rbs).indexPerBlock)
    (hdata : w.blockOf 4 = .ok data)
    (hentries : ∀ o < w.indexPerBlock, indexEntry data o = if o = 0 then 5 else 0)
    (hpos : 0 < w.indexPerBlock) {p : Place} {b : ℕ} (hb : b ≠ 0)
    (hplace : w.vol.anodes.placeIn w.blockOf p = .ok b) :
    (p = .index 0 ∧ b = 4) ∨ (p = .anode 0 ∧ b = 5) := by
  obtain ⟨c, hvol, -⟩ := hvol
  have hr : w.vol.anodes = .new (oneAnodeBlockRoot rbs) none := by rw [hvol]; rfl
  have hlarge : w.vol.anodes.isLarge = false := by
    rw [hr]
    have hsmall : (oneAnodeBlockRoot rbs).isLarge = false :=
      (by decide : (MODE_SPLITTED_ANODES &&& MODE_SUPERINDEX != 0) = false)
    exact hsmall
  have hblocks : w.vol.anodes.indexblocks = 4 :: List.replicate 98 0 := by rw [hr]; rfl
  have hipb' : w.vol.anodes.indexPerBlock = w.indexPerBlock := by rw [hr, hipb]; rfl
  have hindex : ∀ i, w.vol.anodes.indexIn w.blockOf i = .ok (if i = 0 then 4 else 0) := by
    intro i
    rw [AnodeReader.indexIn, hlarge, if_neg Bool.false_ne_true, hblocks]
    cases i with
    | zero => rfl
    | succ i =>
        rw [List.getD_cons_succ, if_neg (Nat.succ_ne_zero i), List.getD_eq_getElem?_getD,
          List.getElem?_replicate]
        split <;> rfl
  cases p with
  | super n =>
      rw [AnodeReader.placeIn, hlarge, if_neg Bool.false_ne_true] at hplace
      exact absurd (Except.ok.inj hplace).symm hb
  | index i =>
      rw [AnodeReader.placeIn, hindex] at hplace
      split at hplace
      · rename_i hi
        exact Or.inl ⟨by rw [hi], (Except.ok.inj hplace).symm⟩
      · exact absurd (Except.ok.inj hplace).symm hb
  | anode s =>
      rw [AnodeReader.placeIn, AnodeReader.resolveIn_of_index (hindex _), hipb'] at hplace
      by_cases hdiv : s / w.indexPerBlock = 0
      · rw [if_pos hdiv, if_neg (by decide), AnodeReader.entryIn_ok hdata,
          hentries _ (Nat.mod_lt _ hpos)] at hplace
        split at hplace
        · rename_i hmod
          have hs : s = 0 := by
            rw [← Nat.div_add_mod s w.indexPerBlock, hdiv, hmod, Nat.mul_zero]
          exact Or.inr ⟨by rw [hs], (Except.ok.inj hplace).symm⟩
        · exact absurd (Except.ok.inj hplace).symm hb
      · rw [if_neg hdiv, if_pos rfl] at hplace
        exact absurd (Except.ok.inj hplace).symm hb

theorem Writer.indexed_oneAnodeBlock {rbs : ℕ} {w : Writer} {data : Bytes}
    (hvol : (oneAnodeBlockVolume rbs).Like w.vol)
    (hipb : w.indexPerBlock = (oneAnodeBlockRoot rbs).indexPerBlock)
    (hfirst : w.firstreserved = 2) (hcluster : w.rescluster = 1)
    (hbitmap : w.resBitmap = [0x07000000#32]) (hdata : w.blockOf 4 = .ok data)
    (hentries : ∀ o < w.indexPerBlock, indexEntry data o = if o = 0 then 5 else 0)
    (hpos : 0 < w.indexPerBlock) : w.Indexed := by
  have hplaces : ∀ p b, b ≠ 0 → w.vol.anodes.placeIn w.blockOf p = .ok b →
      (p = .index 0 ∧ b = 4) ∨ (p = .anode 0 ∧ b = 5) := fun p b =>
    Writer.places_oneAnodeBlock hvol hipb hdata hentries hpos
  obtain ⟨c, hvol, -⟩ := hvol
  have hroot : w.vol.rootblock.rblkcluster = 2 := by rw [hvol]; rfl
  refine ⟨by rw [hvol]; rfl, hipb.trans (by rw [hvol]; rfl), fun k hk => ?_, ?_, ?_, ?_⟩
  · rw [hroot, hcluster, Nat.mul_one]
    by_contra hlt
    rw [isFree, hbitmap] at hk
    obtain rfl | rfl : k = 0 ∨ k = 1 := by omega
    · exact absurd hk (by decide)
    · exact absurd hk (by decide)
  · intro p q b hb hp hq
    rcases hplaces p b hb hp with ⟨rfl, rfl⟩ | ⟨rfl, rfl⟩
    · rcases hplaces q 4 hb hq with ⟨rfl, -⟩ | ⟨-, hcon⟩
      · rfl
      · cases hcon
    · rcases hplaces q 5 hb hq with ⟨-, hcon⟩ | ⟨rfl, -⟩
      · cases hcon
      · rfl
  · intro p b hb hp
    unfold InUse isFree
    rw [hfirst, hcluster, hbitmap]
    rcases hplaces p b hb hp with ⟨-, rfl⟩ | ⟨-, rfl⟩
    · exact ⟨2, by decide⟩
    · exact ⟨3, by decide⟩
  · intro p b hb hp
    rw [hfirst, hroot]
    rcases hplaces p b hb hp with ⟨-, rfl⟩ | ⟨-, rfl⟩
    · decide
    · decide

/-- A new anode block for `s` on the volume, and the commit. -/
def registering (rbs s : ℕ) : Option (Writer × ℕ × Writer × Writer) :=
  match Writer.open (oneAnodeBlockVolume rbs) fun _ => ⟨0, 0, 0⟩ with
  | .error _ => none
  | .ok w =>
      match Writer.allocAnodeBlock s w with
      | .error _ _ => none
      | .ok blk w₁ =>
          match Writer.updateRootblock w₁ with
          | .error _ _ => none
          | .ok () w₂ => some (w, blk, w₁, w₂)

/-- The opened writer is as laid out, and `s` has no anode block. -/
def asLaidOut (w : Writer) (s : ℕ) : Bool :=
  decide (w.firstreserved = 2 ∧ w.rescluster = 1 ∧ w.resBitmap = [0x07000000#32] ∧
    0 < w.indexPerBlock) &&
  (match w.blockOf 4 with
    | .ok data => (List.range w.indexPerBlock).all fun o =>
        decide (indexEntry data o = if o = 0 then 5 else 0)
    | .error _ => false) &&
  match w.resolved s with
  | .ok n => decide (n = 0)
  | .error _ => false

theorem of_registering {rbs s blk : ℕ} {w w₁ w₂ : Writer}
    (hdev : Volume.fromDevice (oneAnodeBlock rbs) = .ok (oneAnodeBlockVolume rbs))
    (h : registering rbs s = some (w, blk, w₁, w₂)) (hlaid : asLaidOut w s = true) :
    Writer.open (oneAnodeBlockVolume rbs) (fun _ => ⟨0, 0, 0⟩) = .ok w ∧ w.Committed ∧ w.Indexed ∧
      w.resolved s = .ok 0 ∧ Writer.allocAnodeBlock s w = .ok blk w₁ ∧
      Writer.updateRootblock w₁ = .ok () w₂ := by
  have hv := Volume.opened_of_fromDevice hdev
  unfold registering at h
  split at h
  · cases h
  · rename_i w' hopen
    split at h
    · cases h
    · rename_i blk' w₁' halloc
      split at h
      · cases h
      · rename_i w₂' hcommit
        cases h
        have hon := Writer.openedOn_of_open hv hopen
        unfold asLaidOut at hlaid
        rw [Bool.and_eq_true, Bool.and_eq_true] at hlaid
        obtain ⟨⟨hfields, hentries⟩, hzero⟩ := hlaid
        obtain ⟨hfirst, hcluster, hbitmap, hpos⟩ := of_decide_eq_true hfields
        refine ⟨hopen, committed_of_open hv hopen, ?_, ?_, halloc, hcommit⟩
        · split at hentries
          · rename_i data hdata
            exact Writer.indexed_oneAnodeBlock hon.vol hon.indexPerBlock hfirst hcluster hbitmap
              hdata (fun o ho => of_decide_eq_true
                (List.all_eq_true.mp hentries o (List.mem_range.mpr ho))) hpos
          · cases hentries
        · split at hzero
          · rename_i n hn
            rw [hn, of_decide_eq_true hzero]
          · cases hzero

theorem fromDevice_whole :
    Volume.fromDevice (oneAnodeBlock 512) = .ok (oneAnodeBlockVolume 512) :=
  fromDevice_oneAnodeBlock (by decide) (by decide +kernel) (by decide +kernel)

theorem fromDevice_odd :
    Volume.fromDevice (oneAnodeBlock 1000) = .ok (oneAnodeBlockVolume 1000) :=
  fromDevice_oneAnodeBlock (by decide) (by decide +kernel) (by decide +kernel)

def registeredSecond : Evaluated (registering 512 1) fun r =>
    asLaidOut r.1 1 && decide (SECTOR_SIZE ∣ r.1.resblocksize) :=
  .of (by decide +kernel)

theorem allocAnodeBlock_second : ∃ w w₁ w₂ blk, w.Committed ∧ w.Indexed ∧
    w.resolved 1 = .ok 0 ∧ Writer.allocAnodeBlock 1 w = .ok blk w₁ ∧
    Writer.updateRootblock w₁ = .ok () w₂ ∧ Writer.Registered w w₂ 1 blk := by
  obtain ⟨⟨w, blk, w₁, w₂⟩, hrun, hcheck⟩ := registeredSecond
  rw [Bool.and_eq_true] at hcheck
  obtain ⟨-, hw, hx, hzero, halloc, hcommit⟩ := of_registering fromDevice_whole hrun hcheck.1
  refine ⟨w, w₁, w₂, blk, hw, hx, hzero, halloc, hcommit,
    (Writer.allocAnodeBlock_registers_iff hw hx hzero halloc hcommit).mpr
      (Writer.entriesWithin_of_dvd hw hx (of_decide_eq_true hcheck.2) 1)⟩

def registeredOdd : Evaluated (registering 1000 125) fun r =>
    asLaidOut r.1 125 && decide (r.2.1 = 7) &&
      match r.2.2.2.resolved 125 with
      | .ok n => decide (n = 0)
      | .error _ => false :=
  .of (by decide +kernel)

/-- Reserved blocks of 1000 bytes have one sector: entry 125 of an index block is in none. -/
theorem allocAnodeBlock_lost : ∃ w w₁ w₂ blk,
    Volume.fromDevice (oneAnodeBlock 1000) = .ok (oneAnodeBlockVolume 1000) ∧
    Writer.open (oneAnodeBlockVolume 1000) (fun _ => ⟨0, 0, 0⟩) = .ok w ∧ w.Committed ∧
    w.Indexed ∧ w.resolved 125 = .ok 0 ∧ Writer.allocAnodeBlock 125 w = .ok blk w₁ ∧
    Writer.updateRootblock w₁ = .ok () w₂ ∧ blk = 7 ∧ w₂.resolved 125 = .ok 0 ∧
    ¬ Writer.Registered w w₂ 125 blk := by
  obtain ⟨⟨w, blk, w₁, w₂⟩, hrun, hcheck⟩ := registeredOdd
  dsimp only at hcheck
  rw [Bool.and_eq_true, Bool.and_eq_true] at hcheck
  obtain ⟨⟨hlaid, hblk⟩, hlost⟩ := hcheck
  obtain ⟨hopen, hw, hx, hzero, halloc, hcommit⟩ := of_registering fromDevice_odd hrun hlaid
  have hseven := of_decide_eq_true hblk
  split at hlost
  · rename_i n hn
    rw [of_decide_eq_true hlost] at hn
    refine ⟨w, w₁, w₂, blk, fromDevice_odd, hopen, hw, hx, hzero, halloc, hcommit, hseven, hn,
      fun hreg => ?_⟩
    have hfinds := hreg.resolves
    rw [hn, hseven] at hfinds
    cases hfinds
  · cases hlost

end Pfs3
