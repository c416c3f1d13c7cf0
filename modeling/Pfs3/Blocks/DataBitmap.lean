import Mathlib.Data.List.GetD
import Pfs3.Blocks.Pick
import Pfs3.Store.FormatRun
import Pfs3.Store.SimCommit
import Pfs3.Walk.Depth

/-!
# The writer's view of the data bitmap

What `load_data_bitmap` reads from an arbitrary volume, which blocks the writer then takes for
free, and what allocating and freeing make of that view.
-/

namespace Pfs3

open ByteList Stop BlockCache

namespace Writer

/-- The bit `r` of the `k`-th loaded bitmap block. -/
def bitAt (bm : List (ℕ × List (BitVec 32))) (k r : ℕ) : Bool :=
  match (bm[k]?).bind fun p => p.2[r / 32]? with
  | some long => long.getMsbD (r % 32)
  | none => false

/-- The writer regards the block `b` as free: its bit in the loaded bitmap is set. -/
def regardsFree (w : Writer) (b : ℕ) : Bool :=
  let rel := b - w.bitmapstart
  bitAt w.dataBm (rel / (w.indexPerBlock * 32)) (rel % (w.indexPerBlock * 32))

/-- A block of the data area: behind the reserved area and on the disk. -/
def InRange (w : Writer) (b : ℕ) : Prop := w.bitmapstart ≤ b ∧ b < w.vol.rootblock.disksize

/-- The loaded bitmap blocks are as long as the geometry says and can be read again, and queued
blocks have the size of a reserved block. -/
structure BitmapReady (w : Writer) : Prop where
  ipb : w.indexPerBlock ≠ 0
  fits : 12 + w.indexPerBlock * 4 ≤ w.resblocksize
  long : ∀ p ∈ w.dataBm, p.2.length = w.indexPerBlock
  readable : ∀ p ∈ w.dataBm, ∃ data,
    w.vol.dev.readBlocks p.1 w.rescluster w.resblocksize = .ok data
  queue : ∀ p ∈ w.pendingWrites, p.2.length = w.resblocksize

variable {w : Writer}

/-! ## Writing a bitmap block -/

/-- The same writer up to the queue and the cache. -/
def SameBut (w w' : Writer) : Prop :=
  ∃ q c, w' = { w with pendingWrites := q, vol.cache := c }

/-- A reserved block that can be read has the size of a reserved block. -/
theorem readReservedRaw_ready (h : w.BitmapReady) {p : ℕ × List (BitVec 32)} (hp : p ∈ w.dataBm) :
    ∃ data, readReservedRaw p.1 w = .ok data w ∧ data.length = w.resblocksize := by
  unfold readReservedRaw
  rw [bind_of_ok (rfl : (get : WriterM Writer) _ = .ok _ _)]
  cases hq : w.pendingWrites.lookup p.1 with
  | some data =>
      have hmem : (p.1, data) ∈ w.pendingWrites := by
        have := List.lookup_eq_some_iff.mp hq
        obtain ⟨l₁, l₂, hl, -⟩ := this
        rw [hl]
        simp
      exact ⟨data, rfl, h.queue _ hmem⟩
  | none =>
      obtain ⟨data, hdata⟩ := h.readable p hp
      refine ⟨data, ?_, Device.length_of_readBlocks hdata⟩
      dsimp only
      rw [hdata]
      rfl

theorem SameBut.ready {w' : Writer} (hs : w.SameBut w') (h : w.BitmapReady)
    (hq : ∀ p ∈ w'.pendingWrites, p.2.length = w'.resblocksize) : w'.BitmapReady := by
  obtain ⟨q, c, rfl⟩ := hs
  exact ⟨h.ipb, h.fits, h.long, h.readable, hq⟩

/-- `write_data_bitmap_block` only queues. -/
theorem writeDataBitmapBlock_ready (h : w.BitmapReady) {i : ℕ} (hi : i < w.dataBm.length) :
    ∃ w', writeDataBitmapBlock i w = .ok () w' ∧ w.SameBut w' ∧ w'.BitmapReady := by
  have hget : w.dataBm[i]? = some w.dataBm[i] := List.getElem?_eq_getElem hi
  have hmem : w.dataBm[i] ∈ w.dataBm := List.getElem_mem hi
  generalize w.dataBm[i] = p at hget hmem
  obtain ⟨blk, longs⟩ := p
  obtain ⟨data, hread, hlen⟩ := readReservedRaw_ready h hmem
  have hlongs := h.long _ hmem
  have hfits := h.fits
  have hpos := h.ipb
  have hput₁ : putU32 data 4 w.datestamp = .ok (splice data 4 (enc32 w.datestamp)) :=
    putU32_ok (by omega)
  have hlen₁ : (splice data 4 (enc32 w.datestamp)).length = w.resblocksize :=
    (length_splice (by simp; omega)).trans hlen
  have hwords := length_words_bytes longs
  have hfit : 12 + (longs.flatMap fun l => enc32 l.toNat).length ≤
      (splice data 4 (enc32 w.datestamp)).length := by
    rw [hwords, hlen₁, hlongs]
    exact hfits
  have hput₂ := putBytes_ok hfit
  have hlen₂ := (length_splice hfit).trans hlen₁
  generalize splice (splice data 4 (enc32 w.datestamp)) 12
    (longs.flatMap fun l => enc32 l.toNat) = img at hput₂ hlen₂
  have hrun : writeDataBitmapBlock i w = writeReserved blk img w := by
    unfold writeDataBitmapBlock
    rw [bind_of_ok (rfl : (get : WriterM Writer) _ = .ok _ _), hget]
    dsimp only
    rw [bind_of_ok hread, hput₁]
    refine (bind_of_ok (rfl : (liftM (Except.ok _ : Except Fault Bytes) : WriterM Bytes) _ =
      .ok _ _)).trans ?_
    rw [hput₂]
    exact bind_of_ok (rfl : (liftM (Except.ok _ : Except Fault Bytes) : WriterM Bytes) _ =
      .ok _ _)
  have hsame : w.SameBut { invalidate blk w with
      pendingWrites := queueWrite blk img w.pendingWrites } := ⟨_, _, rfl⟩
  refine ⟨_, hrun, hsame, hsame.ready h fun p hp => ?_⟩
  rcases mem_queueWrite hp with rfl | hp
  · exact hlen₂
  · exact h.queue p hp

/-! ## Allocating -/

/-- The free block numbers of the bitmap blocks from the `i`-th on. -/
def freeFrom (ipb start : ℕ) : (i : ℕ) → List (ℕ × List (BitVec 32)) → List ℕ
  | _, [] => []
  | i, p :: rest => longBlocks (i * ipb * 32 + start) p.2 ++ freeFrom ipb start (i + 1) rest

/-- The block numbers of the set bits of the loaded bitmap, in order. -/
def freeBlocks (w : Writer) : List ℕ := freeFrom w.indexPerBlock w.bitmapstart 0 w.dataBm

/-- How `alloc_data_blocks` ends, given what its scan found. -/
def AllocEnds (count blocksfree : ℕ) :
    List ℕ × Scan → EStateM.Result Fault Writer (List ℕ) → Prop
  | (allocated, .done), r =>
      if count ≤ blocksfree then ∃ w', r = .ok allocated w' else ∃ w', r = .error .panic w'
  | (_, .panic), r => ∃ w', r = .error .panic w'
  | (_, _), r => ∃ e w', r = .error (.err e) w'

theorem setLongs_ready (h : w.BitmapReady) (i : ℕ) {longs : List (BitVec 32)}
    (hlen : longs.length = w.indexPerBlock) : (setLongs i longs w).BitmapReady := by
  have hmem : ∀ p ∈ w.dataBm.modify i fun p => (p.1, longs), ∃ q ∈ w.dataBm,
      p.1 = q.1 ∧ p.2.length = w.indexPerBlock := by
    intro p hp
    obtain ⟨j, hj, rfl⟩ := List.getElem_of_mem hp
    rw [List.length_modify] at hj
    rw [List.getElem_modify]
    refine ⟨w.dataBm[j], List.getElem_mem hj, ?_⟩
    split
    · exact ⟨rfl, hlen⟩
    · exact ⟨rfl, h.long _ (List.getElem_mem hj)⟩
  refine ⟨h.ipb, h.fits, fun p hp => ?_, fun p hp => ?_, h.queue⟩
  · obtain ⟨-, -, -, hp⟩ := hmem p hp
    exact hp
  · obtain ⟨q, hq, hpq, -⟩ := hmem p hp
    rw [hpq]
    exact h.readable q hq

/-- The loop of `alloc_data_blocks` over the bitmap blocks from the `i`-th on. -/
theorem allocDataBlocksLoop_ends (count n : ℕ) : ∀ {w : Writer} (i : ℕ) (allocated : List ℕ),
    w.BitmapReady → i + n = w.dataBm.length →
    AllocEnds count w.vol.rootblock.blocksfree
      (pick count (w.vol.rootblock.disksize + w.bitmapstart)
        (freeFrom w.indexPerBlock w.bitmapstart i (w.dataBm.drop i)) allocated)
      (allocDataBlocksLoop count n i allocated w) := by
  induction n with
  | zero =>
      intro w i allocated _ hi
      rw [List.drop_of_length_le (by omega)]
      exact ⟨_, _, rfl⟩
  | succ n ih =>
      intro w i allocated h hi
      have hlt : i < w.dataBm.length := by omega
      have hdrop : w.dataBm.drop i = w.dataBm[i] :: w.dataBm.drop (i + 1) :=
        List.drop_eq_getElem_cons hlt
      have hget : w.dataBm[i]? = some w.dataBm[i] := List.getElem?_eq_getElem hlt
      have hlong := h.long _ (List.getElem_mem hlt)
      obtain ⟨hscan, hlen⟩ := @takeLongs_pick count
        (w.vol.rootblock.disksize + w.bitmapstart) w.dataBm[i].2
        (i * w.indexPerBlock * 32 + w.bitmapstart) allocated
      rw [hdrop, freeFrom, pick_append, ← hscan]
      rw [allocDataBlocksLoop, bind_of_ok (rfl : (get : WriterM Writer) _ = .ok _ _), hget]
      dsimp only [Option.map_some, Option.getD_some]
      rcases hres : takeLongs count (w.vol.rootblock.disksize + w.bitmapstart)
        (i * w.indexPerBlock * 32 + w.bitmapstart) w.dataBm[i].2 allocated with
        ⟨longs, allocated', scan⟩
      rw [hres] at hlen
      dsimp only at hlen ⊢
      have hready := setLongs_ready h i (hlen.trans hlong)
      have hrest : (setLongs i longs w).dataBm.drop (i + 1) = w.dataBm.drop (i + 1) := by
        refine List.ext_getElem? fun j => ?_
        have hne : ¬ i = i + 1 + j := by omega
        rw [List.getElem?_drop, List.getElem?_drop]
        simp [setLongs, hne]
      have hcount : (setLongs i longs w).dataBm.length = w.dataBm.length := List.length_modify ..
      have hmod : (modify (setLongs i longs) : WriterM Unit) w = .ok () (setLongs i longs w) := rfl
      obtain ⟨w₂, hwrite, ⟨q, c, rfl⟩, hready₂⟩ :=
        writeDataBitmapBlock_ready hready (i := i) (by omega)
      rw [bind_of_ok hmod]
      cases scan with
      | panic => exact ⟨_, rfl⟩
      | overflow => exact ⟨_, _, rfl⟩
      | done =>
          dsimp only
          rw [bind_of_ok hwrite]
          unfold AllocEnds subU32
          dsimp only
          split
          · exact ⟨_, rfl⟩
          · exact ⟨_, rfl⟩
      | more =>
          dsimp only
          split
          · rw [bind_of_ok hwrite]
            have hnext := ih (i + 1) allocated' hready₂
              (show i + 1 + n = (setLongs i longs w).dataBm.length by omega)
            change AllocEnds count w.vol.rootblock.blocksfree (pick count
              (w.vol.rootblock.disksize + w.bitmapstart) (freeFrom w.indexPerBlock w.bitmapstart
                (i + 1) ((setLongs i longs w).dataBm.drop (i + 1))) allocated') _ at hnext
            rwa [hrest] at hnext
          · have hnext := ih (i + 1) allocated' hready (by omega)
            change AllocEnds count w.vol.rootblock.blocksfree (pick count
              (w.vol.rootblock.disksize + w.bitmapstart) (freeFrom w.indexPerBlock w.bitmapstart
                (i + 1) ((setLongs i longs w).dataBm.drop (i + 1))) allocated') _ at hnext
            rwa [hrest] at hnext

/-- `alloc_data_blocks` on any loaded bitmap. -/
theorem allocDataBlocks_ends (h : w.BitmapReady) (count : ℕ) :
    AllocEnds count w.vol.rootblock.blocksfree
      (pick count (w.vol.rootblock.disksize + w.bitmapstart) w.freeBlocks [])
      (allocDataBlocks count w) := by
  unfold allocDataBlocks
  rw [bind_of_ok (rfl : (get : WriterM Writer) _ = .ok _ _)]
  exact allocDataBlocksLoop_ends count w.dataBm.length 0 [] h (Nat.zero_add _)

/-! ## Free blocks -/

theorem mem_freeFrom {ipb start p : ℕ} (hipb : ipb ≠ 0) :
    ∀ {bm : List (ℕ × List (BitVec 32))} {i : ℕ}, (∀ q ∈ bm, q.2.length = ipb) →
      (p ∈ freeFrom ipb start i bm ↔ i * ipb * 32 + start ≤ p ∧
        ∃ long, ((bm[(p - start) / (ipb * 32) - i]?).bind
          fun q => q.2[(p - start) % (ipb * 32) / 32]?) = some long ∧
            long.getMsbD ((p - start) % (ipb * 32) % 32) = true) := by
  intro bm
  have hB : 0 < ipb * 32 := by omega
  have hmod := Nat.mod_lt (p - start) hB
  have hdiv := Nat.div_add_mod (p - start) (ipb * 32)
  induction bm with
  | nil =>
      intro i _
      simp [freeFrom]
  | cons q bm ih =>
      intro i hlen
      have hq := hlen q List.mem_cons_self
      have hmul : ∀ j, j * ipb * 32 = ipb * 32 * j := fun j => by ring
      have hsucc : ipb * 32 * (i + 1) = ipb * 32 * i + ipb * 32 := Nat.mul_succ _ _
      rw [freeFrom, List.mem_append, mem_longBlocks, hq, ih fun r hr => hlen r (by simp [hr])]
      rw [hmul, hmul, hsucc]
      generalize hk : (p - start) / (ipb * 32) = k at hdiv
      generalize hr : (p - start) % (ipb * 32) = r at hdiv hmod
      rcases Nat.lt_trichotomy k i with hlt | rfl | hgt
      · -- before the block
        have hle : ipb * 32 * (k + 1) ≤ ipb * 32 * i := Nat.mul_le_mul_left _ hlt
        rw [Nat.mul_succ] at hle
        constructor
        · rintro (⟨hge, -, -⟩ | ⟨hge, -⟩)
          · omega
          · omega
        · rintro ⟨hge, -⟩
          omega
      · -- inside of it
        rw [Nat.sub_self, List.getElem?_cons_zero, Option.bind_some]
        constructor
        · rintro (⟨hge, -, long, hl, hset⟩ | ⟨hge, -⟩)
          · have hrel : p - (ipb * 32 * k + start) = r := by omega
            rw [hrel] at hl hset
            exact ⟨hge, long, hl, hset⟩
          · omega
        · rintro ⟨hge, long, hl, hset⟩
          have hrel : p - (ipb * 32 * k + start) = r := by omega
          refine Or.inl ⟨hge, by omega, long, ?_, ?_⟩
          · rw [hrel]
            exact hl
          · rw [hrel]
            exact hset
      · -- behind it
        have hle : ipb * 32 * (i + 1) ≤ ipb * 32 * k := Nat.mul_le_mul_left _ hgt
        have hidx : k - i = k - (i + 1) + 1 := by omega
        rw [hidx, List.getElem?_cons_succ]
        constructor
        · rintro (⟨-, hlt, -⟩ | ⟨hge, hrest⟩)
          · omega
          · exact ⟨by omega, hrest⟩
        · rintro ⟨hge, long, hl, hset⟩
          refine Or.inr ⟨?_, long, hl, hset⟩
          by_contra hcon
          have hnil : p < start ∨ start ≤ p := by omega
          omega

theorem mem_freeBlocks (h : w.BitmapReady) {p : ℕ} :
    p ∈ w.freeBlocks ↔ w.bitmapstart ≤ p ∧ w.regardsFree p = true := by
  unfold freeBlocks
  rw [mem_freeFrom h.ipb h.long, Nat.zero_mul, Nat.zero_mul, Nat.zero_add, Nat.sub_zero]
  refine and_congr_right fun _ => ?_
  unfold regardsFree bitAt
  dsimp only
  constructor
  · rintro ⟨long, hl, hset⟩
    rw [hl]
    exact hset
  · intro hfree
    split at hfree
    · rename_i long hl
      exact ⟨long, hl, hfree⟩
    · cases hfree

theorem sorted_freeFrom {ipb start : ℕ} : ∀ {bm : List (ℕ × List (BitVec 32))} {i : ℕ},
    ipb ≠ 0 → (∀ q ∈ bm, q.2.length = ipb) → (freeFrom ipb start i bm).Pairwise (· < ·) := by
  intro bm
  induction bm with
  | nil => exact fun _ _ => List.Pairwise.nil
  | cons q bm ih =>
      intro i hipb hlen
      have hlen' : ∀ r ∈ bm, r.2.length = ipb := fun r hr => hlen r (List.mem_cons_of_mem q hr)
      refine List.pairwise_append.mpr ⟨sorted_longBlocks _ _, ih hipb hlen', ?_⟩
      intro a ha b hb
      obtain ⟨-, hlt, -⟩ := mem_longBlocks.mp ha
      obtain ⟨hge, -⟩ := (mem_freeFrom hipb hlen').mp hb
      rw [hlen q List.mem_cons_self] at hlt
      have hmul : (i + 1) * ipb * 32 = i * ipb * 32 + ipb * 32 := by ring
      omega

theorem sorted_freeBlocks (h : w.BitmapReady) : w.freeBlocks.Pairwise (· < ·) :=
  sorted_freeFrom h.ipb h.long

/-! ## Freeing -/

theorem getMsbD_or_bitMask {long : BitVec 32} {bit i : ℕ} (hi : i < 32) :
    (long ||| bitMask bit).getMsbD i = (long.getMsbD i || decide (i = bit)) := by
  have hmask := @BitRun.getMsbD_mask bit i hi
  rw [BitVec.getMsbD_or, bitMask_eq, hmask]

/-- Setting one bit of one loaded bitmap block. -/
theorem bitAt_modify {bm : List (ℕ × List (BitVec 32))} {k r blk : ℕ} {longs : List (BitVec 32)}
    {long : BitVec 32} (hget : bm[k]? = some (blk, longs)) (hlong : longs[r / 32]? = some long)
    (k' r' : ℕ) :
    bitAt (bm.modify k fun p => (p.1, longs.set (r / 32) (long ||| bitMask (r % 32)))) k' r' =
      (bitAt bm k' r' || decide (k' = k ∧ r' = r)) := by
  unfold bitAt
  rw [List.getElem?_modify]
  by_cases hk : k = k'
  · subst hk
    rw [hget]
    simp only [Option.map_eq_map, Option.map_some, Option.bind_some, if_true]
    have hlt : r / 32 < longs.length := (List.getElem?_eq_some_iff.mp hlong).1
    rw [List.getElem?_set]
    by_cases hr : r / 32 = r' / 32
    · rw [if_pos hr, if_pos (hr ▸ hlt), ← hr, hlong]
      dsimp only
      rw [getMsbD_or_bitMask (Nat.mod_lt _ (by omega))]
      congr 1
      have hiff : r' % 32 = r % 32 ↔ r' = r := by omega
      simp [hiff]
    · rw [if_neg hr]
      have hne : r' ≠ r := by
        rintro rfl
        exact hr rfl
      simp [hne]
  · have hne : k' ≠ k := fun h => hk h.symm
    simp [hk, hne]

/-- Setting the bit of the block `b` in the loaded bitmap. -/
theorem regardsFree_setLongs {b blk : ℕ} {longs : List (BitVec 32)} {long : BitVec 32}
    (hb : w.bitmapstart ≤ b)
    (hget : w.dataBm[(b - w.bitmapstart) / (w.indexPerBlock * 32)]? = some (blk, longs))
    (hlong : longs[(b - w.bitmapstart) % (w.indexPerBlock * 32) / 32]? = some long)
    {c : ℕ} (hc : w.bitmapstart ≤ c) :
    regardsFree (setLongs ((b - w.bitmapstart) / (w.indexPerBlock * 32))
      (longs.set ((b - w.bitmapstart) % (w.indexPerBlock * 32) / 32)
        (long ||| bitMask ((b - w.bitmapstart) % (w.indexPerBlock * 32) % 32))) w) c =
      (w.regardsFree c || decide (c = b)) := by
  have hdivb := Nat.div_add_mod (b - w.bitmapstart) (w.indexPerBlock * 32)
  have hdivc := Nat.div_add_mod (c - w.bitmapstart) (w.indexPerBlock * 32)
  refine (bitAt_modify hget hlong _ _).trans (congrArg (w.regardsFree c || ·) ?_)
  refine decide_eq_decide.mpr ⟨fun ⟨hk, hr⟩ => ?_, fun h => ?_⟩
  · have hk : (c - w.bitmapstart) / (w.indexPerBlock * 32) = _ := hk
    have hr : (c - w.bitmapstart) % (w.indexPerBlock * 32) = _ := hr
    rw [hk, hr] at hdivc
    omega
  · rw [h]
    exact ⟨rfl, rfl⟩

theorem freeDataBlock_run {b : ℕ} (hb : w.bitmapstart ≤ b) : freeDataBlock b w = (do
    match w.dataBm[(b - w.bitmapstart) / (w.indexPerBlock * 32)]? with
    | none => pure ()
    | some (_, longs) =>
        match longs[(b - w.bitmapstart) % (w.indexPerBlock * 32) / 32]? with
        | none => throw .panic
        | some long =>
            modify (setLongs ((b - w.bitmapstart) / (w.indexPerBlock * 32))
              (longs.set ((b - w.bitmapstart) % (w.indexPerBlock * 32) / 32)
                (long ||| bitMask ((b - w.bitmapstart) % (w.indexPerBlock * 32) % 32))))
            writeDataBitmapBlock ((b - w.bitmapstart) / (w.indexPerBlock * 32))
            let free ← addU32 w.vol.rootblock.blocksfree 1
            setBlocksfree free : WriterM Unit) w := by
  unfold freeDataBlock
  rewrite [bind_of_ok (rfl : (get : WriterM Writer) _ = .ok _ _), if_neg (by omega)]
  rfl

/-- `free_data_block` of a block behind the reserved area. -/
theorem freeDataBlock_ends (h : w.BitmapReady) {b : ℕ} (hb : w.bitmapstart ≤ b) :
    (w.dataBm.length ≤ (b - w.bitmapstart) / (w.indexPerBlock * 32) ∧
      freeDataBlock b w = .ok () w ∧ w.regardsFree b = false) ∨
    ((b - w.bitmapstart) / (w.indexPerBlock * 32) < w.dataBm.length ∧
      if w.vol.rootblock.blocksfree + 1 < U32 then
        ∃ w', freeDataBlock b w = .ok () w' ∧
          ∀ c, w.bitmapstart ≤ c → w'.regardsFree c = (w.regardsFree c || decide (c = b))
      else ∃ w', freeDataBlock b w = .error .panic w') := by
  have hB : 0 < w.indexPerBlock * 32 := by
    have := h.ipb
    omega
  have hstart := freeDataBlock_run hb
  by_cases hlt : (b - w.bitmapstart) / (w.indexPerBlock * 32) < w.dataBm.length
  · right
    have hget : w.dataBm[(b - w.bitmapstart) / (w.indexPerBlock * 32)]? =
        some w.dataBm[(b - w.bitmapstart) / (w.indexPerBlock * 32)] :=
      List.getElem?_eq_getElem hlt
    have hlen := h.long _ (List.getElem_mem hlt)
    generalize w.dataBm[(b - w.bitmapstart) / (w.indexPerBlock * 32)] = p at hget hlen
    obtain ⟨blk, longs⟩ := p
    have hmod := Nat.mod_lt (b - w.bitmapstart) hB
    have hli : (b - w.bitmapstart) % (w.indexPerBlock * 32) / 32 < longs.length := by
      rw [hlen]
      omega
    have hlong := List.getElem?_eq_getElem hli
    generalize longs[(b - w.bitmapstart) % (w.indexPerBlock * 32) / 32] = long at hlong
    have hview := fun c hc => regardsFree_setLongs hb hget hlong (c := c) hc
    have hready := @setLongs_ready w h ((b - w.bitmapstart) / (w.indexPerBlock * 32))
      (longs.set ((b - w.bitmapstart) % (w.indexPerBlock * 32) / 32)
        (long ||| bitMask ((b - w.bitmapstart) % (w.indexPerBlock * 32) % 32)))
      (by rw [List.length_set]; exact hlen)
    obtain ⟨w', hwrite, ⟨q, c, rfl⟩, -⟩ := writeDataBitmapBlock_ready hready
      (i := (b - w.bitmapstart) / (w.indexPerBlock * 32))
      (by simpa [setLongs] using hlt)
    refine ⟨hlt, ?_⟩
    rw [hstart, hget]
    dsimp only
    rw [hlong]
    dsimp only
    rw [bind_of_ok (rfl : (modify _ : WriterM Unit) w = .ok () _), bind_of_ok hwrite]
    unfold addU32
    split
    · exact ⟨_, rfl, hview⟩
    · exact ⟨_, rfl⟩
  · left
    have hnone : w.dataBm[(b - w.bitmapstart) / (w.indexPerBlock * 32)]? = none :=
      List.getElem?_eq_none (by omega)
    refine ⟨by omega, ?_, ?_⟩
    · rw [hstart, hnone]
      rfl
    · unfold regardsFree bitAt
      dsimp only
      rw [hnone]
      rfl

end Writer

/-! ## Loading -/

/-- The bitmap index resolves the sequence number `seq` to `o`. -/
def Volume.Resolves (v : Volume) (seq : ℕ) (o : Option ℕ) : Prop :=
  ∃ c, v.bitmap.getBitmapBlock seq v.dev v.cache = .ok o c

/-- The `k`-th bit of the bitmap on the disk, as `BitmapReader` finds it. -/
def Volume.DataBit (v : Volume) (k : ℕ) : Prop :=
  ∃ blk c data c',
    v.bitmap.getBitmapBlock (k / (v.bitmap.indexPerBlock * 32)) v.dev v.cache = .ok (some blk) c ∧
    readReserved v.dev blk v.bitmap.reservedBlksize c = .ok data c' ∧
    (BitVec.ofNat 32 (be32 data (BITMAP_BLOCK_HEADER_SIZE +
      k % (v.bitmap.indexPerBlock * 32) / 32 * 4))).getMsbD
        (k % (v.bitmap.indexPerBlock * 32) % 32) = true

namespace Writer

variable {v : Volume} {w : Writer}

/-- What `load_data_bitmap` makes of sequence numbers: the blocks of those that resolve. -/
inductive Loads (v : Volume) (rescluster ipb : ℕ) :
    List ℕ → List (ℕ × List (BitVec 32)) → Prop
  | nil : Loads v rescluster ipb [] []
  | skip {seq : ℕ} {seqs : List ℕ} {bm : List (ℕ × List (BitVec 32))}
      (hseq : v.Resolves seq none) (h : Loads v rescluster ipb seqs bm) :
      Loads v rescluster ipb (seq :: seqs) bm
  | take {seq blk : ℕ} {data : Bytes} {seqs : List ℕ} {bm : List (ℕ × List (BitVec 32))}
      (hseq : v.Resolves seq (some blk))
      (hread : v.dev.readBlocks blk rescluster v.rootblock.reservedBlksize = .ok data)
      (h : Loads v rescluster ipb seqs bm) :
      Loads v rescluster ipb (seq :: seqs)
        ((blk, (readWords data 12 ipb).map (BitVec.ofNat 32)) :: bm)

/-- The index answers the same from every cache that agrees with the device. -/
theorem getBitmapBlockNr_answers (hv : v.Opened) {w : Writer} (hw : v.Like w.vol) (seq : ℕ) :
    (∃ o c, v.Resolves seq o ∧ getBitmapBlockNr seq w = .ok o { w with vol.cache := c } ∧
      v.Like { w.vol with cache := c }) ∨
    ∃ f w', getBitmapBlockNr seq w = .error f w' := by
  obtain ⟨r, hr⟩ := @BitmapReader.steady_getBitmapBlock v.dev v.bitmap hv.bitmap seq
  rw [hv.bitmapRbs] at hr
  obtain ⟨c, hvol, hc⟩ := hw
  have hrun : getBitmapBlockNr seq w =
      onVol (Volume.onCache (w.vol.bitmap.getBitmapBlock seq)) w := by
    unfold getBitmapBlockNr
    rw [bind_of_ok (rfl : (get : WriterM Writer) _ = .ok _ _)]
  cases r with
  | error e =>
      obtain ⟨c', hread, -⟩ := hr.raise hc
      right
      refine ⟨.err e, { w with vol.cache := c' }, ?_⟩
      rw [hrun, hvol]
      simp only [onVol, Volume.onCache, zoom, hvol, hread]
      rfl
  | ok o =>
      obtain ⟨_, c', hread, rfl, hc'⟩ := hr.ok hc
      obtain ⟨_, c₀, hread₀, rfl, -⟩ := hr.ok hv.cache
      left
      refine ⟨_, c', ⟨c₀, hread₀⟩, ?_, ⟨c', by rw [hvol], hc'⟩⟩
      rw [hrun, hvol]
      simp only [onVol, Volume.onCache, zoom, hvol, hread]
      rfl

theorem readReservedRaw_of_nil (h : w.pendingWrites = []) (blk : ℕ) :
    readReservedRaw blk w =
      (liftM (w.vol.dev.readBlocks blk w.rescluster w.resblocksize) : WriterM Bytes) w := by
  unfold readReservedRaw
  rw [bind_of_ok (rfl : (get : WriterM Writer) _ = .ok _ _)]
  simp only [h, List.lookup_nil]

theorem loadDataBitmapLoop_loads (hv : v.Opened) (seqs : List ℕ) : ∀ {w w' : Writer},
    v.Like w.vol → w.pendingWrites = [] → w.resblocksize = v.rootblock.reservedBlksize →
    loadDataBitmapLoop seqs w = .ok () w' →
    ∃ c bm, w' = { w with vol.cache := c, dataBm := w.dataBm ++ bm } ∧ v.Like w'.vol ∧
      Loads v w.rescluster w.indexPerBlock seqs bm := by
  induction seqs with
  | nil =>
      intro w w' hw _ _ h
      injection h with _ h
      exact ⟨w.vol.cache, [], by rw [← h, List.append_nil], h ▸ hw, .nil⟩
  | cons seq seqs ih =>
      intro w w' hw hnil hrbs h
      rw [loadDataBitmapLoop] at h
      rcases getBitmapBlockNr_answers hv hw seq with ⟨o, c, hres, hrun, hlike⟩ | ⟨f, w₁, hrun⟩
      · rw [bind_of_ok hrun] at h
        cases o with
        | none =>
            obtain ⟨c', bm, hw', hlike', hload⟩ :=
              ih (w := { w with vol.cache := c }) hlike hnil hrbs h
            exact ⟨c', bm, hw', hlike', .skip hres hload⟩
        | some blk =>
            dsimp only at h
            obtain ⟨data, w₁, hread, h⟩ := of_bind_eq_ok h
            rw [readReservedRaw_of_nil (w := { w with vol.cache := c }) hnil] at hread
            obtain ⟨hdata, hw₁⟩ := Format.of_lift_ok hread
            subst hw₁
            have hdev : w.vol.dev = v.dev := by
              obtain ⟨c₀, hvol, -⟩ := hw
              rw [hvol]
            change w.vol.dev.readBlocks blk w.rescluster w.resblocksize = .ok data at hdata
            rw [hdev, hrbs] at hdata
            obtain ⟨c', bm, hw', hlike', hload⟩ := ih (w := { w with
              vol.cache := c
              dataBm := w.dataBm ++ [(blk,
                (readWords data 12 w.indexPerBlock).map (BitVec.ofNat 32))] }) hlike hnil hrbs h
            refine ⟨c', _, ?_, hlike', .take hres hdata hload⟩
            rw [hw', List.append_assoc]
            rfl
      · rw [bind_of_error hrun] at h
        cases h

/-- The loaded blocks have one word for each index entry of a reserved block. -/
theorem Loads.long {rescluster ipb : ℕ} {seqs : List ℕ} {bm : List (ℕ × List (BitVec 32))}
    (h : Loads v rescluster ipb seqs bm) (hfits : 12 + ipb * 4 ≤ v.rootblock.reservedBlksize) :
    ∀ p ∈ bm, p.2.length = ipb ∧
      ∃ data, v.dev.readBlocks p.1 rescluster v.rootblock.reservedBlksize = .ok data := by
  induction h with
  | nil => exact fun p hp => absurd hp List.not_mem_nil
  | skip _ _ ih => exact ih
  | take _ hread _ ih =>
      intro p hp
      rcases List.mem_cons.mp hp with rfl | hp
      · refine ⟨?_, _, hread⟩
        have hlen := Device.length_of_readBlocks hread
        rw [List.length_map, readWords, List.length_take, length_beWords, List.length_drop, hlen]
        omega
      · exact ih p hp

/-- As long as the sequence numbers resolve, the blocks lie in the loaded bitmap in order. -/
theorem Loads.getElem? {rescluster ipb : ℕ} (n : ℕ) : ∀ {s m i : ℕ}
    {bm : List (ℕ × List (BitVec 32))}, Loads v rescluster ipb (List.range' s n) bm → m ≤ n →
    (∀ seq, s ≤ seq → seq < s + m → ∃ blk, v.Resolves seq (some blk)) → i < m →
    ∃ blk data, bm[i]? = some (blk, (readWords data 12 ipb).map (BitVec.ofNat 32)) ∧
      v.Resolves (s + i) (some blk) ∧
      v.dev.readBlocks blk rescluster v.rootblock.reservedBlksize = .ok data := by
  have hone : ∀ {seq o o'}, v.Resolves seq o → v.Resolves seq o' → o = o' := by
    rintro seq o o' ⟨c, h⟩ ⟨c', h'⟩
    have hsame := h.symm.trans h'
    injection hsame
  induction n with
  | zero => exact fun _ hm _ hi => by omega
  | succ n ih =>
      intro s m i bm h hm hres hi
      rw [List.range'_succ] at h
      have hnext : ∀ seq, s + 1 ≤ seq → seq < s + 1 + (m - 1) → ∃ blk, v.Resolves seq (some blk) :=
        fun seq hge hlt => hres seq (by omega) (by omega)
      cases h with
      | skip hseq h =>
          obtain ⟨blk, hblk⟩ := hres s le_rfl (by omega)
          cases hone hseq hblk
      | take hseq hread h =>
          cases i with
          | zero => exact ⟨_, _, rfl, hseq, hread⟩
          | succ i =>
              obtain ⟨blk, data, hget, hblk, hdata⟩ := ih h (by omega) hnext (i := i) (by omega)
              refine ⟨blk, data, ?_, ?_, hdata⟩
              · rw [List.getElem?_cons_succ]
                exact hget
              · rwa [show s + (i + 1) = s + 1 + i by omega]

theorem Loads.length_le {rescluster ipb : ℕ} {seqs : List ℕ} {bm : List (ℕ × List (BitVec 32))}
    (h : Loads v rescluster ipb seqs bm) : bm.length ≤ seqs.length := by
  induction h with
  | nil => exact le_rfl
  | skip _ _ ih => exact ih.trans (Nat.le_succ _)
  | take _ _ _ ih => exact Nat.succ_le_succ ih

/-- Number of bitmap blocks that the data area takes. -/
def bitmapBlocks (w : Writer) : ℕ :=
  (w.vol.rootblock.disksize - w.bitmapstart + w.indexPerBlock * 32 - 1) / (w.indexPerBlock * 32)

/-- The free blocks of the data area. -/
def freeInRange (w : Writer) : List ℕ :=
  (List.range' w.bitmapstart (w.vol.rootblock.disksize - w.bitmapstart)).filter w.regardsFree

/-- What opening makes of the geometry and of the bitmap. -/
structure OpenedOn (v : Volume) (w : Writer) : Prop where
  vol : v.Like w.vol
  resblocksize : w.resblocksize = v.rootblock.reservedBlksize
  rescluster : w.rescluster = v.rootblock.reservedBlksize / SECTOR_SIZE
  rescluster_pos : 0 < w.rescluster
  indexPerBlock : w.indexPerBlock = v.rootblock.indexPerBlock
  pending : w.pendingWrites = []
  loads : Loads v w.rescluster w.indexPerBlock
    (List.range (min ((w.vol.rootblock.disksize + w.indexPerBlock * 32 - 1) /
      (w.indexPerBlock * 32)) 16384)) w.dataBm

/-- Opening reads the reserved bitmap into the writer that the rootblock gives, then the data
bitmap. -/
theorem of_open (hv : v.Opened) {clock : ℕ → Datestamp} (h : Writer.open v clock = .ok w) :
    ∃ w₀ bits c bm, ofVolume v clock = .ok w₀ ∧
      loadReservedBitmap w₀ = .ok () { w₀ with resBitmap := bits } ∧
      w = { w₀ with vol.cache := c, resBitmap := bits, dataBm := w₀.dataBm ++ bm } ∧
      v.Like w.vol ∧ Loads v w₀.rescluster w₀.indexPerBlock
        (List.range (min ((w₀.vol.rootblock.disksize + w₀.indexPerBlock * 32 - 1) /
          (w₀.indexPerBlock * 32)) 16384)) bm := by
  unfold Writer.open at h
  obtain ⟨w₀, hof, h⟩ := of_bind_ok h
  split at h
  · rename_i w₂ hload
    injection h with h
    subst h
    obtain ⟨_, w₁, hres, hdata⟩ := of_bind_eq_ok hload
    -- the reserved bitmap is loaded into its own field
    obtain ⟨bits, hw₁⟩ : ∃ bits, w₁ = { w₀ with resBitmap := bits } := by
      unfold loadReservedBitmap at hres
      rw [bind_of_ok (rfl : (get : WriterM Writer) _ = .ok _ _)] at hres
      obtain ⟨c, w', hread, hres⟩ := of_bind_eq_ok hres
      obtain ⟨-, hw'⟩ := Format.of_lift_ok hread
      subst hw'
      injection hres with _ hres
      exact ⟨_, hres.symm⟩
    subst hw₁
    have hvol : w₀.vol = v ∧ w₀.pendingWrites = [] ∧
        w₀.resblocksize = v.rootblock.reservedBlksize := by
      unfold ofVolume at hof
      dsimp only at hof
      split at hof
      · cases hof
      · cases hof
        exact ⟨rfl, rfl, rfl⟩
    unfold loadDataBitmap at hdata
    rw [bind_of_ok (rfl : (get : WriterM Writer) _ = .ok _ _)] at hdata
    obtain ⟨c, bm, hw, hlike, hloads⟩ := loadDataBitmapLoop_loads hv _
      (w := { w₀ with resBitmap := bits }) (by rw [hvol.1]; exact hv.like) hvol.2.1 hvol.2.2 hdata
    exact ⟨w₀, bits, c, bm, hof, hres, hw, hlike, hloads⟩
  · cases h

theorem openedOn_of_open (hv : v.Opened) {clock : ℕ → Datestamp}
    (h : Writer.open v clock = .ok w) : OpenedOn v w := by
  obtain ⟨w₀, bits, c, bm, hof, -, rfl, hlike, hloads⟩ := of_open hv h
  unfold ofVolume at hof
  dsimp only at hof
  split at hof
  · cases hof
  · rename_i hguard
    cases hof
    exact ⟨hlike, rfl, rfl, Nat.pos_of_ne_zero fun hzero => hguard (Or.inr (Or.inl hzero)),
      rfl, rfl, hloads⟩

theorem OpenedOn.ready (h : OpenedOn v w) (hv : v.Opened)
    (hbm : v.bitmap = .new v.rootblock) : w.BitmapReady := by
  have hipb : w.indexPerBlock ≠ 0 := by
    rw [h.indexPerBlock]
    have hne := hv.bitmap
    rw [hbm] at hne
    exact hne
  have hfits : 12 + w.indexPerBlock * 4 ≤ w.resblocksize := by
    have hdef : w.indexPerBlock = v.rootblock.reservedBlksize / 4 - 3 := h.indexPerBlock
    rw [h.resblocksize]
    omega
  have hlong := h.loads.long (hfits.trans (le_of_eq h.resblocksize))
  have hdev : w.vol.dev = v.dev := by
    obtain ⟨c, hvol, -⟩ := h.vol
    rw [hvol]
  refine ⟨hipb, hfits, fun p hp => (hlong p hp).1, fun p hp => ?_, fun p hp => ?_⟩
  · rw [hdev, h.resblocksize]
    exact (hlong p hp).2
  · rw [h.pending] at hp
    cases hp

/-- A bit of a bitmap block that the index resolves. -/
theorem dataBit_iff (hv : v.Opened) {k blk : ℕ} {data : Bytes}
    (hres : v.Resolves (k / (v.bitmap.indexPerBlock * 32)) (some blk))
    (hread : v.dev.readReserved v.rootblock.reservedBlksize blk = .ok data) :
    v.DataBit k ↔ (BitVec.ofNat 32 (be32 data (12 +
      k % (v.bitmap.indexPerBlock * 32) / 32 * 4))).getMsbD
        (k % (v.bitmap.indexPerBlock * 32) % 32) = true := by
  obtain ⟨r, hr⟩ := @BitmapReader.steady_getBitmapBlock v.dev v.bitmap hv.bitmap
    (k / (v.bitmap.indexPerBlock * 32))
  rw [hv.bitmapRbs] at hr
  obtain ⟨c, hc⟩ := hres
  have hmirrors : c.Mirrors v.dev v.rootblock.reservedBlksize := by
    cases r with
    | error e =>
        obtain ⟨c', hrun, -⟩ := hr.raise hv.cache
        cases hc.symm.trans hrun
    | ok o =>
        obtain ⟨_, c', hrun, -, hc'⟩ := hr.ok hv.cache
        have hsame := hc.symm.trans hrun
        injection hsame with _ hsame
        rw [hsame]
        exact hc'
  have hcached := @readReserved_reads _ _ (fun _ => True) blk trivial c hmirrors
  rw [hread] at hcached
  obtain ⟨_, c', hrun, rfl, -⟩ := hcached
  constructor
  · rintro ⟨blk', c₁, data', c₁', hblk, hdata, hbit⟩
    have hsame := hc.symm.trans hblk
    injection hsame with hblk' hc₁
    injection hblk' with hblk'
    subst hblk' hc₁
    rw [hv.bitmapRbs] at hdata
    have hsame := hrun.symm.trans hdata
    injection hsame with hdata' _
    rw [hdata']
    exact hbit
  · intro hbit
    exact ⟨blk, c, _, c', hc, by rw [hv.bitmapRbs]; exact hrun, hbit⟩

/-- Blocks of the data area whose bitmap block was loaded. -/
theorem OpenedOn.view (h : OpenedOn v w) (hv : v.Opened) (hbm : v.bitmap = .new v.rootblock)
    (hres : ∀ seq < w.bitmapBlocks, ∃ blk, v.Resolves seq (some blk))
    (hcap : w.bitmapBlocks ≤ 16384) {b : ℕ} (hb : w.InRange b) :
    (b - w.bitmapstart) / (w.indexPerBlock * 32) < w.dataBm.length ∧
      (w.regardsFree b = true ↔ v.DataBit (b - w.bitmapstart)) := by
  have hready := h.ready hv hbm
  have hB : 0 < w.indexPerBlock * 32 := by
    have := hready.ipb
    omega
  have hipb : v.bitmap.indexPerBlock = w.indexPerBlock := by
    rw [hbm, h.indexPerBlock]
    rfl
  obtain ⟨hlo, hhi⟩ := hb
  have hseq : (b - w.bitmapstart) / (w.indexPerBlock * 32) < w.bitmapBlocks := by
    unfold bitmapBlocks
    have hle : (b - w.bitmapstart + w.indexPerBlock * 32) / (w.indexPerBlock * 32) ≤
        (w.vol.rootblock.disksize - w.bitmapstart + w.indexPerBlock * 32 - 1) /
          (w.indexPerBlock * 32) := Nat.div_le_div_right (by omega)
    rw [Nat.add_div_right _ hB] at hle
    exact hle
  have hall : w.bitmapBlocks ≤ min ((w.vol.rootblock.disksize + w.indexPerBlock * 32 - 1) /
      (w.indexPerBlock * 32)) 16384 := by
    refine Nat.le_min.mpr ⟨?_, hcap⟩
    unfold bitmapBlocks
    exact Nat.div_le_div_right (by omega)
  have hloads := h.loads
  rw [List.range_eq_range'] at hloads
  obtain ⟨blk, data, hget, hblk, hdata⟩ := hloads.getElem? _ hall
    (fun seq _ hlt => hres seq (by omega)) hseq
  rw [Nat.zero_add] at hblk
  have hread : v.dev.readReserved v.rootblock.reservedBlksize blk = .ok data := by
    have hpos := h.rescluster_pos
    rw [h.rescluster] at hpos hdata
    unfold Device.readReserved
    rw [max_eq_left hpos]
    exact hdata
  have hmod := Nat.mod_lt (b - w.bitmapstart) hB
  have hlen := Device.length_of_readBlocks hdata
  have hfits := hready.fits
  rw [h.resblocksize] at hfits
  refine ⟨(List.getElem?_eq_some_iff.mp hget).1, ?_⟩
  rw [dataBit_iff hv (by rw [hipb]; exact hblk) hread, hipb]
  unfold regardsFree bitAt
  dsimp only
  generalize (b - w.bitmapstart) % (w.indexPerBlock * 32) = r at hmod ⊢
  have hword : ((readWords data 12 w.indexPerBlock).map (BitVec.ofNat 32))[r / 32]? =
      some (BitVec.ofNat 32 (be32 data (12 + r / 32 * 4))) := by
    have hlt : r / 32 < (readWords data 12 w.indexPerBlock).length := by
      rw [length_readWords (by rw [hlen]; omega)]
      omega
    have hgetD := @getD_readWords data 12 w.indexPerBlock (r / 32)
      (by omega) (by rw [hlen]; omega)
    rw [List.getElem?_map, List.getElem?_eq_getElem hlt, ← hgetD, List.getD_eq_getElem _ _ hlt]
    rfl
  rw [hget, Option.bind_some, hword]

/-! ## The bitmap and the allocator -/

/-- The view of the data bitmap is exact: a block of the data area counts as free when its bit
is set, allocating hands out free blocks of the data area whenever there are enough, and freeing
a block sets its bit and no other. -/
structure BitmapExact (v : Volume) (w : Writer) : Prop where
  view : ∀ b, w.InRange b → (w.regardsFree b = true ↔ v.DataBit (b - w.bitmapstart))
  allocated : ∀ n, 1 ≤ n → ∀ blocks w', allocDataBlocks n w = .ok blocks w' →
    blocks.length = n ∧ blocks.Nodup ∧ ∀ b ∈ blocks, w.InRange b ∧ w.regardsFree b = true
  succeeds : ∀ n, 1 ≤ n →
    ((∃ blocks w', allocDataBlocks n w = .ok blocks w') ↔ n ≤ w.freeInRange.length)
  freed : ∀ b, w.InRange b → ∃ w', freeDataBlock b w = .ok () w' ∧
    ∀ c, w.InRange c → (w'.regardsFree c = true ↔ w.regardsFree c = true ∨ c = b)

/-- When it is: the data area needs no more bitmap blocks than are loaded at most; the counter
can take the free blocks off and one more on; if it can take off more than that, no bit is set for
a block behind the disk that the range check lets through; and if the bound of that check leaves
`u32`, no block of the disk is free. -/
structure BitmapSound (w : Writer) : Prop where
  covered : w.bitmapBlocks ≤ 16384
  trailing : w.vol.rootblock.disksize + w.bitmapstart < U32 →
    w.freeInRange.length < w.vol.rootblock.blocksfree → ∀ b, w.bitmapstart ≤ b →
      w.vol.rootblock.disksize ≤ b → b < w.vol.rootblock.disksize + w.bitmapstart →
        w.regardsFree b = false
  beyond : U32 ≤ w.vol.rootblock.disksize + w.bitmapstart → ∀ b, w.InRange b →
    w.regardsFree b = false
  counter : w.freeInRange.length ≤ w.vol.rootblock.blocksfree
  room : w.bitmapstart < w.vol.rootblock.disksize → w.vol.rootblock.blocksfree + 1 < U32

theorem mem_freeInRange {b : ℕ} :
    b ∈ w.freeInRange ↔ w.InRange b ∧ w.regardsFree b = true := by
  unfold freeInRange InRange
  rw [List.mem_filter, List.mem_range'_1]
  refine and_congr_left fun _ => and_congr_right fun _ => ?_
  omega

/-- The free blocks of the data area are the free blocks in front of the disk's end. -/
theorem freeInRange_eq (h : w.BitmapReady) :
    w.freeInRange = w.freeBlocks.filter fun p => p < w.vol.rootblock.disksize := by
  have hleft : w.freeInRange.Pairwise (· < ·) :=
    List.Pairwise.filter _ (List.pairwise_lt_range' ..)
  have hright : (w.freeBlocks.filter fun p => p < w.vol.rootblock.disksize).Pairwise (· < ·) :=
    List.Pairwise.filter _ (sorted_freeBlocks h)
  refine List.Perm.eq_of_pairwise (fun a b _ _ h₁ h₂ => by omega) hleft hright ?_
  rw [List.perm_ext_iff_of_nodup (hleft.imp ne_of_lt) (hright.imp ne_of_lt)]
  intro b
  rw [mem_freeInRange, List.mem_filter, mem_freeBlocks h, decide_eq_true_eq]
  constructor
  · rintro ⟨⟨h₁, h₂⟩, h₃⟩
    exact ⟨⟨h₁, h₃⟩, h₂⟩
  · rintro ⟨⟨h₁, h₃⟩, h₂⟩
    exact ⟨⟨h₁, h₂⟩, h₃⟩

/-- The free blocks that the range check lets through. -/
def offered (w : Writer) : List ℕ :=
  w.freeBlocks.filter fun p => p < w.vol.rootblock.disksize + w.bitmapstart

/-- With the bound of the range check in `u32`, an allocation takes the first blocks offered. -/
theorem allocDataBlocks_iff (h : w.BitmapReady)
    (hlim : w.vol.rootblock.disksize + w.bitmapstart < U32) {n : ℕ} (hn : 1 ≤ n)
    (blocks : List ℕ) :
    (∃ w', allocDataBlocks n w = .ok blocks w') ↔
      n ≤ w.offered.length ∧ n ≤ w.vol.rootblock.blocksfree ∧ blocks = w.offered.take n := by
  have hends := allocDataBlocks_ends h n
  obtain ⟨hdone, hmore⟩ := @pick_below n _ hlim w.freeBlocks [] (sorted_freeBlocks h) hn
  rw [List.length_nil, Nat.zero_add] at hdone hmore
  by_cases hle : n ≤ w.offered.length
  · rw [hdone hle] at hends
    unfold AllocEnds at hends
    dsimp only at hends
    split at hends
    · rename_i hfree
      obtain ⟨w', hrun⟩ := hends
      rw [hrun]
      constructor
      · rintro ⟨w'', hok⟩
        injection hok with hblocks
        exact ⟨hle, hfree, hblocks.symm⟩
      · rintro ⟨-, -, rfl⟩
        exact ⟨w', rfl⟩
    · rename_i hfree
      obtain ⟨w', hrun⟩ := hends
      rw [hrun]
      constructor
      · rintro ⟨w'', hok⟩
        cases hok
      · rintro ⟨-, hcon, -⟩
        exact absurd hcon hfree
  · have hscan := hmore (by unfold offered at hle; omega)
    rcases hpick : pick n (w.vol.rootblock.disksize + w.bitmapstart) w.freeBlocks [] with
      ⟨allocated, scan⟩
    rw [hpick] at hends hscan
    have hfail : ∃ e w', allocDataBlocks n w = .error (.err e) w' := by
      rcases hscan with rfl | rfl
      · exact hends
      · exact hends
    obtain ⟨e, w', hrun⟩ := hfail
    rw [hrun]
    constructor
    · rintro ⟨w'', hok⟩
      cases hok
    · rintro ⟨hcon, -⟩
      exact absurd hcon hle

/-- With the bound of the range check beyond `u32`, no allocation succeeds. -/
theorem allocDataBlocks_beyond (h : w.BitmapReady)
    (hlim : U32 ≤ w.vol.rootblock.disksize + w.bitmapstart) (n : ℕ) (blocks : List ℕ)
    (w' : Writer) : allocDataBlocks n w ≠ .ok blocks w' := by
  intro hok
  have hends := allocDataBlocks_ends h n
  rw [pick_beyond hlim] at hends
  rcases hfree : w.freeBlocks with _ | ⟨p, ps⟩
  · rw [hfree] at hends
    obtain ⟨e, w'', hrun⟩ := hends
    cases hrun.symm.trans hok
  · rw [hfree] at hends
    dsimp only at hends
    split at hends
    · obtain ⟨e, w'', hrun⟩ := hends
      cases hrun.symm.trans hok
    · obtain ⟨w'', hrun⟩ := hends
      cases hrun.symm.trans hok

/-- The blocks offered are the free blocks of the data area and then those behind the disk. -/
theorem offered_eq (h : w.BitmapReady) :
    w.offered = w.freeInRange ++ w.offered.filter fun p => ¬ p < w.vol.rootblock.disksize := by
  have hsorted : w.offered.Pairwise (· < ·) := List.Pairwise.filter _ (sorted_freeBlocks h)
  have hfirst : w.offered.filter (fun p => p < w.vol.rootblock.disksize) = w.freeInRange := by
    rw [freeInRange_eq h, offered, List.filter_filter]
    refine List.filter_congr fun b _ => ?_
    rw [← Bool.decide_and]
    exact decide_eq_decide.mpr ⟨fun hb => hb.1, fun hb => ⟨hb, by omega⟩⟩
  rw [← hfirst]
  refine List.Perm.eq_of_pairwise (fun a b _ _ h₁ h₂ => by omega) hsorted ?_ ?_
  · refine List.pairwise_append.mpr
      ⟨List.Pairwise.filter _ hsorted, List.Pairwise.filter _ hsorted, fun a ha b hb => ?_⟩
    have ha := of_decide_eq_true (List.mem_filter.mp ha).2
    have hb := of_decide_eq_true (List.mem_filter.mp hb).2
    omega
  · have hperm := List.filter_append_perm (fun p => decide (p < w.vol.rootblock.disksize)) w.offered
    simp only [decide_not]
    exact hperm.symm

/-- The free blocks of the data area are all that is offered when no bit behind them is set. -/
theorem offered_eq_freeInRange (h : w.BitmapReady) (htrail : ∀ b, w.bitmapstart ≤ b →
    w.vol.rootblock.disksize ≤ b → b < w.vol.rootblock.disksize + w.bitmapstart →
      w.regardsFree b = false) : w.offered = w.freeInRange := by
  have hnone : w.offered.filter (fun p => ¬ p < w.vol.rootblock.disksize) = [] := by
    refine List.filter_eq_nil_iff.mpr fun b hb hge => ?_
    have hge := of_decide_eq_true hge
    obtain ⟨hb, hlt⟩ := List.mem_filter.mp hb
    obtain ⟨hstart, hfree⟩ := (mem_freeBlocks h).mp hb
    cases hfree.symm.trans (htrail b hstart (by omega) (of_decide_eq_true hlt))
  have heq := offered_eq h
  rwa [hnone, List.append_nil] at heq

theorem BitmapSound.exact (hsound : w.BitmapSound) (hv : v.Opened) (h : OpenedOn v w)
    (hbm : v.bitmap = .new v.rootblock)
    (hres : ∀ seq < w.bitmapBlocks, ∃ blk, v.Resolves seq (some blk)) : BitmapExact v w := by
  have hready := h.ready hv hbm
  have hview := fun b hb => h.view hv hbm hres hsound.covered (b := b) hb
  have hfreed : ∀ b, w.InRange b → ∃ w', freeDataBlock b w = .ok () w' ∧
      ∀ c, w.InRange c → (w'.regardsFree c = true ↔ w.regardsFree c = true ∨ c = b) := by
    intro b hb
    have hroom := hsound.room (by have := hb.1; have := hb.2; omega)
    rcases freeDataBlock_ends hready hb.1 with ⟨hlen, -⟩ | ⟨-, hrun⟩
    · exact absurd (hview b hb).1 (by omega)
    · rw [if_pos hroom] at hrun
      obtain ⟨w', hrun, hbits⟩ := hrun
      refine ⟨w', hrun, fun c hc => ?_⟩
      rw [hbits c hc.1, Bool.or_eq_true, decide_eq_true_eq]
  by_cases hlim : w.vol.rootblock.disksize + w.bitmapstart < U32
  · -- what is offered behind the disk is out of reach
    have hreach : ∀ n, n ≤ w.offered.length → n ≤ w.vol.rootblock.blocksfree →
        n ≤ w.freeInRange.length := by
      intro n hle hcount
      by_cases hmore : w.freeInRange.length < w.vol.rootblock.blocksfree
      · rwa [offered_eq_freeInRange hready (hsound.trailing hlim hmore)] at hle
      · omega
    have hoff := offered_eq hready
    refine ⟨fun b hb => (hview b hb).2, fun n hn blocks w' hrun => ?_, fun n hn => ?_, hfreed⟩
    · obtain ⟨hle, hcount, rfl⟩ := (allocDataBlocks_iff hready hlim hn blocks).mp ⟨w', hrun⟩
      have hle := hreach n hle hcount
      rw [hoff, List.take_append_of_le_length hle]
      have hsorted : w.freeInRange.Pairwise (· < ·) :=
        List.Pairwise.filter _ (List.pairwise_lt_range' ..)
      refine ⟨List.length_take_of_le hle, ?_, fun b hb => ?_⟩
      · exact List.Sublist.nodup (List.take_sublist n _) (hsorted.imp ne_of_lt)
      · exact mem_freeInRange.mp (List.mem_of_mem_take hb)
    · constructor
      · rintro ⟨blocks, w', hrun⟩
        obtain ⟨hle, hcount, -⟩ := (allocDataBlocks_iff hready hlim hn blocks).mp ⟨w', hrun⟩
        exact hreach n hle hcount
      · intro hle
        have hcounter := hsound.counter
        have hlonger : w.freeInRange.length ≤ w.offered.length := by
          rw [hoff, List.length_append]
          omega
        exact ⟨_, (allocDataBlocks_iff hready hlim hn _).mpr ⟨by omega, by omega, rfl⟩⟩
  · have hnil : w.freeInRange = [] := by
      refine List.eq_nil_iff_forall_not_mem.mpr fun b hb => ?_
      obtain ⟨hb, hfree⟩ := mem_freeInRange.mp hb
      cases hfree.symm.trans (hsound.beyond (by omega) b hb)
    refine ⟨fun b hb => (hview b hb).2, fun n _ blocks w' hrun => ?_, fun n hn => ?_, hfreed⟩
    · exact absurd hrun (allocDataBlocks_beyond hready (by omega) n blocks w')
    · rw [hnil, List.length_nil]
      constructor
      · rintro ⟨blocks, w', hrun⟩
        exact absurd hrun (allocDataBlocks_beyond hready (by omega) n blocks w')
      · intro hcon
        omega

theorem BitmapExact.sound (hexact : BitmapExact v w) (hv : v.Opened) (h : OpenedOn v w)
    (hbm : v.bitmap = .new v.rootblock) : w.BitmapSound := by
  have hready := h.ready hv hbm
  have hB : 0 < w.indexPerBlock * 32 := by
    have := hready.ipb
    omega
  refine ⟨?_, fun hlim hmore b hge hdisk hlt => ?_, fun hlim b hb => ?_, ?_, fun hroom => ?_⟩
  · -- freeing the first block without a loaded bitmap block sets no bit
    by_contra hcon
    have hlast : w.bitmapBlocks * (w.indexPerBlock * 32) ≤
        w.vol.rootblock.disksize - w.bitmapstart + w.indexPerBlock * 32 - 1 :=
      Nat.div_mul_le_self _ _
    have hmul : 16385 * (w.indexPerBlock * 32) ≤ w.bitmapBlocks * (w.indexPerBlock * 32) :=
      Nat.mul_le_mul_right _ (by omega)
    have hin : w.InRange (w.bitmapstart + 16384 * (w.indexPerBlock * 32)) :=
      ⟨Nat.le_add_right _ _, by omega⟩
    have hlen : w.dataBm.length ≤ 16384 := by
      refine h.loads.length_le.trans ?_
      rw [List.length_range]
      exact min_le_right _ _
    obtain ⟨w', hrun, hbits⟩ := hexact.freed _ hin
    have hset := (hbits _ hin).mpr (Or.inr rfl)
    rcases freeDataBlock_ends hready hin.1 with ⟨-, hrun', hfree⟩ | ⟨hloaded, -⟩
    · injection hrun.symm.trans hrun' with _ hw
      rw [hw, hfree] at hset
      cases hset
    · rw [Nat.add_sub_cancel_left, Nat.mul_div_cancel _ hB] at hloaded
      omega
  · -- an allocation of one block more than there are succeeds
    by_contra hcon
    have hfree : w.regardsFree b = true := by simpa using hcon
    have hmem : b ∈ w.offered.filter fun p => ¬ p < w.vol.rootblock.disksize :=
      List.mem_filter.mpr ⟨List.mem_filter.mpr ⟨(mem_freeBlocks hready).mpr ⟨hge, hfree⟩,
        decide_eq_true hlt⟩, decide_eq_true (by omega)⟩
    have hlonger : w.freeInRange.length + 1 ≤ w.offered.length := by
      rw [offered_eq hready, List.length_append]
      have := List.length_pos_of_mem hmem
      omega
    have hrun := (allocDataBlocks_iff hready hlim (Nat.le_add_left 1 _) _).mpr
      ⟨hlonger, hmore, rfl⟩
    have hcount := (hexact.succeeds _ (Nat.le_add_left 1 _)).mp ⟨_, hrun⟩
    omega
  · by_contra hcon
    have hfree : w.regardsFree b = true := by simpa using hcon
    have hpos : 1 ≤ w.freeInRange.length :=
      List.length_pos_of_mem (mem_freeInRange.mpr ⟨hb, hfree⟩)
    obtain ⟨blocks, w', hrun⟩ := (hexact.succeeds 1 le_rfl).mpr hpos
    exact allocDataBlocks_beyond hready hlim 1 blocks w' hrun
  · rcases Nat.eq_zero_or_pos w.freeInRange.length with hzero | hpos
    · omega
    · obtain ⟨blocks, w', hrun⟩ := (hexact.succeeds _ hpos).mpr le_rfl
      by_cases hlim : w.vol.rootblock.disksize + w.bitmapstart < U32
      · exact ((allocDataBlocks_iff hready hlim hpos blocks).mp ⟨w', hrun⟩).2.1
      · exact absurd hrun (allocDataBlocks_beyond hready (by omega) _ blocks w')
  · obtain ⟨w', hrun, hbits⟩ := hexact.freed w.bitmapstart ⟨le_rfl, hroom⟩
    rcases freeDataBlock_ends hready (le_refl w.bitmapstart) with ⟨hlen, hrun', hfree⟩ | ⟨-, hrun'⟩
    · have hset := (hbits w.bitmapstart ⟨le_rfl, hroom⟩).mpr (Or.inr rfl)
      injection hrun.symm.trans hrun' with _ hw
      rw [hw, hfree] at hset
      cases hset
    · by_contra hcon
      rw [if_neg hcon] at hrun'
      obtain ⟨w'', hrun'⟩ := hrun'
      cases hrun.symm.trans hrun'

/-- The readers of a volume come from the rootblock it was given. -/
theorem readers_of_rootblock {dev : Device} {rootblock : Rootblock} (h : (do
      Volume.validateRbs rootblock
      if rootblock.hasExtension then
        match readReserved dev rootblock.extension rootblock.reservedBlksize .new with
        | .error f _ => .error f
        | .ok data cache => do
            let ext ← RootblockExt.parse data
            pure ⟨dev, cache, rootblock, some ext, .new rootblock (some ext), .new rootblock⟩
      else pure ⟨dev, .new, rootblock, none, .new rootblock none, .new rootblock⟩) = Except.ok v) :
    v.bitmap = .new v.rootblock ∧ v.anodes = .new v.rootblock v.rootblockExt := by
  obtain ⟨⟨⟩, -, h⟩ := of_bind_ok h
  split at h
  · split at h
    · cases h
    · obtain ⟨ext, -, h⟩ := of_bind_ok h
      cases h
      exact ⟨rfl, rfl⟩
  · cases h
    exact ⟨rfl, rfl⟩

theorem readers_of_fromDevice {dev : Device} (h : Volume.fromDevice dev = .ok v) :
    v.bitmap = .new v.rootblock ∧ v.anodes = .new v.rootblock v.rootblockExt := by
  unfold Volume.fromDevice at h
  obtain ⟨buf, -, h⟩ := of_bind_ok h
  obtain ⟨rb, -, h⟩ := of_bind_ok h
  dsimp only at h
  split at h
  · obtain ⟨bigBuf, -, h⟩ := of_bind_ok h
    obtain ⟨rootblock, -, h⟩ := of_bind_ok h
    exact readers_of_rootblock h
  · exact readers_of_rootblock h

theorem bitmap_of_fromDevice {dev : Device} (h : Volume.fromDevice dev = .ok v) :
    v.bitmap = .new v.rootblock := (readers_of_fromDevice h).1

/-- The writer's view of the data bitmap is exact on a volume if and only if it is sound. -/
theorem bitmap_exact_iff {dev : Device} {clock : ℕ → Datestamp}
    (hv : Volume.fromDevice dev = .ok v) (hw : Writer.open v clock = .ok w)
    (hres : ∀ seq < w.bitmapBlocks, ∃ blk, v.Resolves seq (some blk)) :
    BitmapExact v w ↔ w.BitmapSound := by
  have hopened := Volume.opened_of_fromDevice hv
  have hon := openedOn_of_open hopened hw
  have hbm := bitmap_of_fromDevice hv
  exact ⟨fun hexact => hexact.sound hopened hon hbm, fun hsound =>
    hsound.exact hopened hon hbm hres⟩

/-! ### A disk of two data blocks -/

/-- A device whose volume has the two data blocks 10 and 11 and one bitmap block, with `word` for
the first blocks of the data area and `free` in the counter. -/
def twoBlocks (word free : ℕ) : Device where
  sectors
    | 2 => .ofFields [(0, enc32 ID_PFS_DISK), (RB_OFF_OPTIONS, enc32 MODE_SPLITTED_ANODES),
        (RB_OFF_LASTRESERVED, enc32 9), (RB_OFF_FIRSTRESERVED, enc32 2),
        (RB_OFF_RESERVED_BLKSIZE, enc16 512), (RB_OFF_RBLKCLUSTER, enc16 2),
        (RB_OFF_BLOCKSFREE, enc32 free), (RB_OFF_DISKSIZE, enc32 12),
        (RB_OFF_INDEX_UNION, enc32 4)]
    | 4 => .ofFields [(0, enc16 BMIBLKID), (12, enc32 5)]
    | 5 => .ofFields [(0, enc16 BMBLKID), (12, enc32 word)]
    | _ => .ofFields []
  total := 20
  writable := true
  faults _ := false
  attempts := 0
  log := []

/-- Opens the device and asks `f` about what is opened. -/
def whenOpened (dev : Device) (f : Volume → Writer → Bool) : Bool :=
  match Volume.fromDevice dev with
  | .error _ => false
  | .ok v =>
      match Writer.open v fun _ => ⟨0, 0, 0⟩ with
      | .error _ => false
      | .ok w => f v w

theorem of_whenOpened {dev : Device} {f : Volume → Writer → Bool}
    (h : whenOpened dev f = true) : ∃ v w, Volume.fromDevice dev = .ok v ∧
      Writer.open v (fun _ => ⟨0, 0, 0⟩) = .ok w ∧ f v w = true := by
  unfold whenOpened at h
  split at h
  · cases h
  · rename_i v hv
    split at h
    · cases h
    · rename_i w hw
      exact ⟨v, w, hv, hw, h⟩

/-- Whether the only bitmap block of the data area is found. -/
def findsBitmap (v : Volume) (w : Writer) : Bool :=
  w.bitmapBlocks == 1 &&
    match v.bitmap.getBitmapBlock 0 v.dev v.cache with
    | .ok (some _) _ => true
    | _ => false

theorem of_findsBitmap (h : findsBitmap v w = true) :
    ∀ seq < w.bitmapBlocks, ∃ blk, v.Resolves seq (some blk) := by
  unfold findsBitmap at h
  obtain ⟨hone, hfound⟩ := (Bool.and_eq_true _ _).mp h
  intro seq hseq
  obtain rfl : seq = 0 := by
    have := eq_of_beq hone
    omega
  split at hfound
  · rename_i blk c hget
    exact ⟨blk, c, hget⟩
  · cases hfound

/-- Both data blocks free, and nothing behind them. -/
theorem bitmap_exact_twoBlocks : ∃ v w, Volume.fromDevice (twoBlocks 0xC0000000 2) = .ok v ∧
    Writer.open v (fun _ => ⟨0, 0, 0⟩) = .ok w ∧ BitmapExact v w := by
  have hcheck : whenOpened (twoBlocks 0xC0000000 2) (fun v w => findsBitmap v w &&
      decide (w.bitmapstart = 10 ∧ w.vol.rootblock.disksize = 12 ∧ w.vol.rootblock.blocksfree = 2 ∧
        w.freeInRange = [10, 11] ∧ (List.range' 12 10).all fun b => !w.regardsFree b)) = true := by
    decide +kernel
  obtain ⟨v, w, hv, hw, hboth⟩ := of_whenOpened hcheck
  obtain ⟨hfinds, hgeo⟩ := (Bool.and_eq_true _ _).mp hboth
  obtain ⟨hstart, hdisk, hcount, hfree, hbehind⟩ := of_decide_eq_true hgeo
  have hresolves := of_findsBitmap hfinds
  refine ⟨v, w, hv, hw, (bitmap_exact_iff hv hw hresolves).mpr ⟨?_, ?_, ?_, ?_, ?_⟩⟩
  · obtain ⟨hone, -⟩ := (Bool.and_eq_true _ _).mp hfinds
    rw [eq_of_beq hone]
    decide
  · intro _ _ b _ hge hlt
    rw [hdisk] at hge hlt
    rw [hstart] at hlt
    have hbit := List.all_eq_true.mp hbehind b (List.mem_range'_1.mpr ⟨hge, hlt⟩)
    simpa using hbit
  · intro hlim
    rw [hdisk, hstart] at hlim
    exact absurd hlim (by decide)
  · rw [hfree, hcount]
    decide
  · rw [hcount]
    exact fun _ => by decide

/-- No data block free, but the block behind the disk marked free: it is handed out. -/
theorem bitmap_inexact : ∃ v w, Volume.fromDevice (twoBlocks 0x20000000 1) = .ok v ∧
    Writer.open v (fun _ => ⟨0, 0, 0⟩) = .ok w ∧
    (∀ seq < w.bitmapBlocks, ∃ blk, v.Resolves seq (some blk)) ∧
    (∃ w', allocDataBlocks 1 w = .ok [12] w') ∧ ¬ w.InRange 12 ∧ ¬ BitmapExact v w := by
  have hcheck : whenOpened (twoBlocks 0x20000000 1) (fun v w => findsBitmap v w &&
      (decide (w.vol.rootblock.disksize = 12) &&
        match allocDataBlocks 1 w with
        | .ok blocks _ => blocks == [12]
        | .error _ _ => false)) = true := by
    decide +kernel
  obtain ⟨v, w, hv, hw, hboth⟩ := of_whenOpened hcheck
  obtain ⟨hfinds, hgeo⟩ := (Bool.and_eq_true _ _).mp hboth
  obtain ⟨hdisk, halloc⟩ := (Bool.and_eq_true _ _).mp hgeo
  have hout : ¬ w.InRange 12 := by
    rintro ⟨-, hlt⟩
    rw [of_decide_eq_true hdisk] at hlt
    omega
  split at halloc
  · rename_i blocks w' hrun
    rw [eq_of_beq halloc] at hrun
    refine ⟨v, w, hv, hw, of_findsBitmap hfinds, ⟨w', hrun⟩, hout, fun hexact => hout ?_⟩
    exact ((hexact.allocated 1 le_rfl _ _ hrun).2.2 12 List.mem_cons_self).1
  · cases halloc

end Writer

end Pfs3
