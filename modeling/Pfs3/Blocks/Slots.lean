import Mathlib.Data.List.Nodup
import Mathlib.Data.List.ProdSigma
import Pfs3.Blocks.Anodes

/-!
# Allocating anodes

`alloc_anode` takes the first free slot of the anode blocks, or of a new block where the index has
none.  On a volume of any geometry every other anode stays as it is.
-/

namespace Pfs3

open ByteList BlockCache Stop

/-! ## The slots of an anode block -/

section Slots

variable {data data' : Bytes} {off cs bn nx ds : ℕ}

/-- One word was written. -/
structure WordPut (data data' : Bytes) (pos v : ℕ) : Prop where
  fits : pos + 4 ≤ data.length
  length : data'.length = data.length
  word : be32 data' pos = v % 2 ^ 32
  other : ∀ i, i + 4 ≤ pos ∨ pos + 4 ≤ i → be32 data' i = be32 data i
  half : ∀ i, i + 2 ≤ pos ∨ pos + 4 ≤ i → be16 data' i = be16 data i

theorem wordPut {pos v : ℕ} (h : putU32 data pos v = .ok data') : WordPut data data' pos v := by
  obtain ⟨hfit, rfl⟩ := of_putU32 h
  have hfit' : pos + (enc32 v).length ≤ data.length := by rw [length_enc32]; exact hfit
  exact ⟨hfit, length_splice hfit', be32_splice_self hfit,
    fun i hi => be32_splice_ne hfit' (by rw [length_enc32]; exact hi),
    fun i hi => be16_splice_ne hfit' (by rw [length_enc32]; exact hi)⟩

/-- A slot that was written: it holds the new anode, and every other one is as it was. -/
structure SlotPut (data data' : Bytes) (off cs bn nx : ℕ) : Prop where
  length : data'.length = data.length
  before : ∀ nr, AnodeReader.anodeAt data nr off =
    .ok (Anode.parse data (ANODE_BLOCK_HEADER_SIZE + off * ANODE_SIZE) nr)
  slot : ∀ nr, AnodeReader.anodeAt data' nr off = .ok ⟨cs, bn, nx, nr⟩
  other : ∀ nr off', off' ≠ off →
    AnodeReader.anodeAt data' nr off' = AnodeReader.anodeAt data nr off'

theorem of_putAnode (h : Writer.putAnode data (ANODE_BLOCK_HEADER_SIZE + off * ANODE_SIZE)
      cs bn nx ds = .ok data') (hid : be16 data 0 = ABLKID) (hcs : cs < U32) (hbn : bn < U32)
    (hnx : nx < U32) : SlotPut data data' off cs bn nx := by
  have hhead : ANODE_BLOCK_HEADER_SIZE = 16 := rfl
  have hsize : ANODE_SIZE = 12 := rfl
  have hu : U32 = 2 ^ 32 := rfl
  rw [hhead, hsize] at h
  unfold Writer.putAnode at h
  obtain ⟨d₁, h₁, h⟩ := of_bind_ok h
  obtain ⟨d₂, h₂, h⟩ := of_bind_ok h
  obtain ⟨d₃, h₃, h₄⟩ := of_bind_ok h
  have p₁ := wordPut h₁
  have p₂ := wordPut h₂
  have p₃ := wordPut h₃
  have p₄ := wordPut h₄
  have hlen : data'.length = data.length :=
    p₄.length.trans (p₃.length.trans (p₂.length.trans p₁.length))
  have hfit := p₃.fits
  rw [p₂.length, p₁.length] at hfit
  have hid' : be16 data' 0 = be16 data 0 :=
    (p₄.half 0 (by omega)).trans ((p₃.half 0 (by omega)).trans
      ((p₂.half 0 (by omega)).trans (p₁.half 0 (by omega))))
  refine ⟨hlen, fun nr => ?_, fun nr => ?_, fun nr off' hne => ?_⟩
  · unfold AnodeReader.anodeAt
    rw [hhead, hsize, if_neg (by omega), if_neg (not_not.mpr hid), if_neg (by omega)]
  · have hslot₁ : be32 data' (16 + off * 12) = cs := by
      rw [p₄.other _ (by omega), p₃.other _ (by omega), p₂.other _ (by omega), p₁.word, ← hu,
        Nat.mod_eq_of_lt hcs]
    have hslot₂ : be32 data' (16 + off * 12 + 4) = bn := by
      rw [p₄.other _ (by omega), p₃.other _ (by omega), p₂.word, ← hu, Nat.mod_eq_of_lt hbn]
    have hslot₃ : be32 data' (16 + off * 12 + 8) = nx := by
      rw [p₄.other _ (by omega), p₃.word, ← hu, Nat.mod_eq_of_lt hnx]
    unfold AnodeReader.anodeAt Anode.parse
    rw [hlen, hid', hhead, hsize, if_neg (by omega), if_neg (not_not.mpr hid), if_neg (by omega),
      hslot₁, hslot₂, hslot₃]
  · have hfar : ∀ i, (8 ≤ i ∧ i + 4 ≤ 16 + off * 12) ∨ 16 + off * 12 + 12 ≤ i →
        be32 data' i = be32 data i := fun i hi => by
      rw [p₄.other _ (by omega), p₃.other _ (by omega), p₂.other _ (by omega),
        p₁.other _ (by omega)]
    unfold AnodeReader.anodeAt Anode.parse
    rw [hlen, hid', hhead, hsize, hfar _ (by omega), hfar _ (by omega), hfar _ (by omega)]

theorem of_readU32 {pos n : ℕ} (h : readU32 data pos = .ok n) : n = be32 data pos := by
  unfold readU32 at h
  split at h
  · exact (Except.ok.inj h).symm
  · cases h

/-- The slot that the search takes. -/
theorem of_findFreeSlot {w : Writer} {seqnr : ℕ} (n : ℕ) : ∀ {offset : ℕ},
    Writer.findFreeSlot w seqnr data n offset = .ok (some off) →
    offset ≤ off ∧ off < offset + n ∧ ANODE_USERFIRST ≤ w.anodeNr seqnr off ∧
      be32 data (ANODE_BLOCK_HEADER_SIZE + off * ANODE_SIZE) = 0 ∧
      be32 data (ANODE_BLOCK_HEADER_SIZE + off * ANODE_SIZE + 4) = 0 := by
  induction n with
  | zero =>
      intro offset h
      cases h
  | succ n ih =>
      intro offset h
      rw [Writer.findFreeSlot] at h
      split at h
      · obtain ⟨hle, hlt, hrest⟩ := ih h
        exact ⟨by omega, by omega, hrest⟩
      · rename_i hfirst
        obtain ⟨x, hx, h⟩ := of_bind_ok h
        obtain ⟨y, hy, h⟩ := of_bind_ok h
        split at h
        · rename_i hzero
          cases h
          have hcs := of_readU32 hx
          have hbn := of_readU32 hy
          exact ⟨le_rfl, by omega, by omega, hcs ▸ hzero.1, hbn ▸ hzero.2⟩
        · obtain ⟨hle, hlt, hrest⟩ := ih h
          exact ⟨by omega, by omega, hrest⟩

/-- The search finds no slot where all are taken. -/
theorem taken_of_findFreeSlot {w : Writer} {seqnr : ℕ} (n : ℕ) : ∀ {offset : ℕ},
    Writer.findFreeSlot w seqnr data n offset = .ok none → ∀ o, offset ≤ o → o < offset + n →
      ANODE_USERFIRST ≤ w.anodeNr seqnr o →
      ¬ (be32 data (ANODE_BLOCK_HEADER_SIZE + o * ANODE_SIZE) = 0 ∧
        be32 data (ANODE_BLOCK_HEADER_SIZE + o * ANODE_SIZE + 4) = 0) := by
  induction n with
  | zero =>
      intro offset _ o hle hlt
      omega
  | succ n ih =>
      intro offset h o hle hlt hfirst
      rw [Writer.findFreeSlot] at h
      by_cases heq : o = offset
      · subst heq
        rw [if_neg (by omega)] at h
        obtain ⟨x, hx, h⟩ := of_bind_ok h
        obtain ⟨y, hy, h⟩ := of_bind_ok h
        split at h
        · cases h
        · rename_i hzero
          rwa [of_readU32 hx, of_readU32 hy] at hzero
      · split at h
        · exact ih h o (by omega) (by omega) hfirst
        · obtain ⟨x, hx, h⟩ := of_bind_ok h
          obtain ⟨y, hy, h⟩ := of_bind_ok h
          split at h
          · cases h
          · exact ih h o (by omega) (by omega) hfirst

/-- The reader splits an anode number as the writer has put it together. -/
theorem splitNr_anodeNr {w : Writer} (hsplit : w.vol.rootblock.isSplittedAnodes =
      w.vol.anodes.splitMode) (hapb : w.anodesPerBlock = w.vol.anodes.anodesPerBlock)
    (hsmall : w.anodesPerBlock ≤ 65536) {s o : ℕ} (ho : o < w.anodesPerBlock) :
    w.vol.anodes.splitNr (w.anodeNr s o) = (s, o) := by
  unfold AnodeReader.splitNr Writer.anodeNr
  rw [hsplit, ← hapb]
  cases w.vol.anodes.splitMode with
  | true =>
      rw [if_pos rfl, if_pos rfl]
      have hor := Nat.two_pow_add_eq_or_of_lt (show o < 2 ^ 16 by omega) s
      have hnr : s * 65536 ||| o = s * 65536 + o := by
        rw [Nat.mul_comm s]
        exact hor.symm
      rw [hnr, show (s * 65536 + o) / 65536 = s by omega, show (s * 65536 + o) % 65536 = o by omega]
  | false =>
      rw [if_neg Bool.false_ne_true, if_neg Bool.false_ne_true, Nat.add_comm,
        Nat.add_mul_div_right _ _ (by omega), Nat.add_mul_mod_self_right, Nat.div_eq_of_lt ho,
        Nat.mod_eq_of_lt ho, Nat.zero_add]

end Slots

/-! ## One more anode -/

namespace AnodeReader

variable {r : AnodeReader} {view view' : ℕ → Except Fault Bytes}

/-- The places depend on the super blocks and the index blocks only. -/
theorem placeIn_congr (h : ∀ p b, b ≠ 0 → (∀ s, p ≠ .anode s) → r.placeIn view p = .ok b →
      view' b = view b) (p : Place) : r.placeIn view' p = r.placeIn view p := by
  have hindex : ∀ i, r.indexIn view' i = r.indexIn view i := indexIn_congr fun n hl hne =>
    h (.super n) _ hne (fun _ hcon => by cases hcon) (super_place hl n)
  cases p with
  | super n => rfl
  | index i => exact hindex i
  | anode s =>
      rw [placeIn, placeIn]
      cases hix : r.indexIn view (s / r.indexPerBlock) with
      | error f => rw [resolveIn, resolveIn, hindex, hix]
      | ok b =>
          rw [resolveIn_of_index ((hindex _).trans hix), resolveIn_of_index hix]
          by_cases hb : b = 0
          · rw [if_pos hb, if_pos hb]
          · rw [if_neg hb, if_neg hb]
            exact entryIn_congr (h (.index _) b hb (fun _ hcon => by cases hcon) hix) _

theorem splitNr_inj {nr nr' : ℕ} (h : r.splitNr nr' = r.splitNr nr) : nr' = nr := by
  unfold splitNr at h
  split at h
  · obtain ⟨hdiv, hmod⟩ := Prod.mk.inj h
    omega
  · obtain ⟨hdiv, hmod⟩ := Prod.mk.inj h
    rw [← Nat.div_add_mod nr' r.anodesPerBlock, ← Nat.div_add_mod nr r.anodesPerBlock, hdiv, hmod]

theorem anodeIn_of_block {nr b : ℕ} {data : Bytes} (hb : b ≠ 0)
    (hres : r.resolveIn view (r.splitNr nr).1 = .ok b) (hdata : view b = .ok data) :
    r.anodeIn view nr = anodeAt data nr (r.splitNr nr).2 := by
  rw [anodeIn, hres]
  dsimp only
  rw [if_neg hb, hdata]

/-- The block and slot of an anode that is read. -/
theorem block_of_anodeIn {nr : ℕ} {an : Anode} (h : r.anodeIn view nr = .ok an) :
    ∃ b data, b ≠ 0 ∧ r.resolveIn view (r.splitNr nr).1 = .ok b ∧ view b = .ok data ∧
      anodeAt data nr (r.splitNr nr).2 = .ok an := by
  unfold anodeIn at h
  split at h
  · cases h
  · rename_i b hres
    split at h
    · cases h
    · rename_i hb
      split at h
      · cases h
      · rename_i data hdata
        exact ⟨b, data, hb, hres, hdata, h⟩

/-- A slot was written in the block of `seqnr`, which may be new. -/
theorem anodeIn_put {seqnr off blk nr cs bn nx : ℕ} {data data' : Bytes} (hblk : blk ≠ 0)
    (hsplit : r.splitNr nr = (seqnr, off)) (hput : SlotPut data data' off cs bn nx)
    (hthere : r.resolveIn view' seqnr = .ok blk) (hdata' : view' blk = .ok data')
    (helse : ∀ s, s ≠ seqnr → r.resolveIn view' s = r.resolveIn view s)
    (hold : r.resolveIn view seqnr = .ok 0 ∨
      r.resolveIn view seqnr = .ok blk ∧ view blk = .ok data)
    (hview : ∀ s b, s ≠ seqnr → b ≠ 0 → r.resolveIn view s = .ok b → view' b = view b) :
    r.anodeIn view' nr = .ok ⟨cs, bn, nx, nr⟩ ∧
      ∀ nr' an, nr' ≠ nr → r.anodeIn view nr' = .ok an → r.anodeIn view' nr' = .ok an := by
  refine ⟨?_, fun nr' an hne h => ?_⟩
  · rw [anodeIn_of_block hblk (by rw [hsplit]; exact hthere) hdata', hsplit]
    exact hput.slot nr
  · obtain ⟨b, d, hb, hres, hd, han⟩ := block_of_anodeIn h
    by_cases hs : (r.splitNr nr').1 = seqnr
    · rw [hs] at hres
      rcases hold with hzero | ⟨hthere₀, hdata⟩
      · rw [hzero] at hres
        exact absurd (Except.ok.inj hres).symm hb
      · rw [hthere₀] at hres
        cases hres
        rw [hdata] at hd
        cases hd
        have hoff : (r.splitNr nr').2 ≠ off := by
          intro hcon
          refine hne (splitNr_inj (r := r) ?_)
          rw [hsplit]
          exact Prod.ext hs hcon
        rw [anodeIn_of_block hblk (by rw [hs]; exact hthere) hdata', hput.other _ _ hoff]
        exact han
    · rw [anodeIn_of_block hb ((helse _ hs).trans hres) ((hview _ b hs hb hres).trans hd)]
      exact han

end AnodeReader

namespace Writer

/-- The index in these blocks: its blocks are distinct, in use and behind the rootblock cluster. -/
structure Table (w : Writer) (view : ℕ → Except Fault Bytes) (free : ℕ → Bool) : Prop where
  rootblock : ∀ k, free k = true → w.vol.rootblock.rblkcluster ≤ k * w.rescluster
  apart : w.vol.anodes.Apart view
  inUse : ∀ p b, b ≠ 0 → w.vol.anodes.placeIn view p = .ok b →
    ∃ k, b = w.firstreserved + k * w.rescluster ∧ free k = false
  behind : ∀ p b, b ≠ 0 → w.vol.anodes.placeIn view p = .ok b →
    w.firstreserved + w.vol.rootblock.rblkcluster ≤ b

section Table

variable {w w₁ w₂ : Writer} {view view' : ℕ → Except Fault Bytes} {free free' : ℕ → Bool}

theorem Indexed.table (hx : w.Indexed) : w.Table w.blockOf w.isFree :=
  ⟨hx.rootblock, hx.apart, hx.inUse, hx.behind⟩

theorem Table.congr (h : w.Table view free)
    (hview : ∀ p b, b ≠ 0 → (∀ s, p ≠ .anode s) → w.vol.anodes.placeIn view p = .ok b →
      view' b = view b)
    (hrootblock : ∀ k, free' k = true → w.vol.rootblock.rblkcluster ≤ k * w.rescluster)
    (hused : ∀ k, free k = false → free' k = false) : w.Table view' free' := by
  have hplace := AnodeReader.placeIn_congr hview
  refine ⟨hrootblock, fun p q b hb hp hq => ?_, fun p b hb hp => ?_, fun p b hb hp => ?_⟩
  · rw [hplace] at hp hq
    exact h.apart p q b hb hp hq
  · rw [hplace] at hp
    obtain ⟨k, rfl, hk⟩ := h.inUse p b hb hp
    exact ⟨k, rfl, hused k hk⟩
  · rw [hplace] at hp
    exact h.behind p b hb hp

/-- A table with more blocks, which were free. -/
theorem Table.extend (h : w.Table view free) (hpos : 0 < w.rescluster) {N : Place → ℕ → Prop}
    (hplaces : ∀ p b, b ≠ 0 → w.vol.anodes.placeIn view' p = .ok b →
      w.vol.anodes.placeIn view p = .ok b ∨ N p b)
    (hnew : ∀ p b, N p b → ∃ k, b = w.firstreserved + k * w.rescluster ∧ free k = true ∧
      free' k = false)
    (honce : ∀ p q b, N p b → N q b → p = q)
    (hless : ∀ k, free' k = true → free k = true) : w.Table view' free' := by
  have hne : ∀ p q b, b ≠ 0 → w.vol.anodes.placeIn view p = .ok b → ¬ N q b := by
    intro p q b hb hp hn
    obtain ⟨k, hk, hfree, -⟩ := hnew q b hn
    obtain ⟨k', hk', hused⟩ := h.inUse p b hb hp
    have heq := Nat.eq_of_mul_eq_mul_right hpos (Nat.add_left_cancel (hk.symm.trans hk'))
    rw [heq, hused] at hfree
    cases hfree
  refine ⟨fun k hk => h.rootblock k (hless k hk), fun p q b hb hp hq => ?_, fun p b hb hp => ?_,
    fun p b hb hp => ?_⟩
  · rcases hplaces p b hb hp with hp | hp
    · rcases hplaces q b hb hq with hq | hq
      · exact h.apart p q b hb hp hq
      · exact absurd hq (hne p q b hb hp)
    · rcases hplaces q b hb hq with hq | hq
      · exact absurd hp (hne q p b hb hq)
      · exact honce p q b hp hq
  · rcases hplaces p b hb hp with hp | hp
    · obtain ⟨k, rfl, hk⟩ := h.inUse p b hb hp
      refine ⟨k, rfl, ?_⟩
      by_contra hcon
      have htrue := hless k (by simpa using hcon)
      rw [hk] at htrue
      cases htrue
    · obtain ⟨k, rfl, -, hk⟩ := hnew p b hp
      exact ⟨k, rfl, hk⟩
  · rcases hplaces p b hb hp with hp | hp
    · exact h.behind p b hb hp
    · obtain ⟨k, rfl, hk, -⟩ := hnew p b hp
      exact Nat.add_le_add_left (h.rootblock k hk) _

/-- A cached reader on the way to the commit. -/
theorem Ahead.reads (h : Ahead w w₁ view free) {α : Type} {a : α} {f : Device → CacheM α}
    {e : Except Fault α} (hreads : Reads (Shows w.vol.dev w.resblocksize w.Reserved) Eq
      (f w.vol.dev) (raised e)) (hrun : Writer.onVol (Volume.onCache f) w₁ = .ok a w₂) :
    e = .ok a ∧ Ahead w w₂ view free := by
  obtain ⟨c, hread, rfl⟩ := of_onCache hrun
  rw [h.dev] at hread
  cases e with
  | error f =>
      obtain ⟨c', hcon, -⟩ := hreads.raise h.cache
      rw [hread] at hcon
      cases hcon
  | ok b =>
      obtain ⟨_, c', hok, rfl, hc'⟩ := hreads.ok h.cache
      rw [hread] at hok
      cases hok
      exact ⟨rfl,
        { h with
          cache := hc'
          queued := ⟨h.queued.grid, h.queued.nodup, h.queued.length⟩ }⟩

theorem Ahead.getAnodeBlockNr (hw : w.Stable) (hx : w.Indexed) (h : Ahead w w₁ view free) {s n : ℕ}
    (hrun : getAnodeBlockNr s w₁ = .ok n w₂) :
    w.vol.anodes.resolveIn w.blockOf s = .ok n ∧ Ahead w w₂ view free := by
  have hreads := @AnodeReader.resolveAnodeBlock_reads w.vol.anodes w.vol.dev w.Reserved
    hw.anodes.index (fun n hl hne => hx.reserved hne (AnodeReader.super_place hl n))
    (by
      rw [hw.anodesRbs, hw.readReserved_eq]
      exact fun i b hb hne => @Indexed.reserved w hx (.index i) b hne hb) s
  rw [hw.anodesRbs, hw.readReserved_eq] at hreads
  unfold Writer.getAnodeBlockNr at hrun
  rw [bind_of_ok (rfl : (get : WriterM Writer) _ = .ok _ _), h.anodes] at hrun
  exact h.reads hreads hrun

/-- The block of an anode is no super block and no index block: its content does not matter. -/
theorem Table.writeAnode (h : w.Table view free) {s b : ℕ} (hb : b ≠ 0)
    (hres : w.vol.anodes.resolveIn view s = .ok b) (d : Except Fault Bytes) :
    (∀ p, w.vol.anodes.placeIn (Function.update view b d) p = w.vol.anodes.placeIn view p) ∧
      w.Table (Function.update view b d) free := by
  have hview : ∀ p x, x ≠ 0 → (∀ s, p ≠ .anode s) → w.vol.anodes.placeIn view p = .ok x →
      Function.update view b d x = view x := by
    intro p x hx hp hplace
    refine Function.update_of_ne (fun hcon => ?_) _ _
    rw [hcon] at hplace
    exact hp s (h.apart p (.anode s) b hb hplace hres)
  exact ⟨AnodeReader.placeIn_congr hview, h.congr hview h.rootblock fun _ hk => hk⟩

/-- Blocks that are neither in the index nor free. -/
structure Outside (w : Writer) (view : ℕ → Except Fault Bytes) (free : ℕ → Bool) (b : ℕ) :
    Prop where
  ne_zero : b ≠ 0
  place : ∀ p, w.vol.anodes.placeIn view p ≠ .ok b
  used : ∀ k, b = w.firstreserved + k * w.rescluster → free k = false

theorem Outside.ne {b k : ℕ} (h : w.Outside view free b) (hk : free k = true) :
    b ≠ w.firstreserved + k * w.rescluster := fun hcon => by
  have hused := h.used k hcon
  rw [hk] at hused
  cases hused

theorem Outside.extend {b : ℕ} (h : w.Outside view free b) {N : Place → ℕ → Prop}
    (hplaces : ∀ p b, b ≠ 0 → w.vol.anodes.placeIn view' p = .ok b →
      w.vol.anodes.placeIn view p = .ok b ∨ N p b)
    (hnew : ∀ p b, N p b → ∃ k, b = w.firstreserved + k * w.rescluster ∧ free k = true ∧
      free' k = false)
    (hless : ∀ k, free' k = true → free k = true) : w.Outside view' free' b := by
  refine ⟨h.ne_zero, fun p hp => ?_, fun k hk => ?_⟩
  · rcases hplaces p b h.ne_zero hp with hp | hp
    · exact h.place p hp
    · obtain ⟨k, hk, hfree, -⟩ := hnew p b hp
      exact h.ne hfree hk
  · by_contra hcon
    have hused := h.used k hk
    rw [hless k (by simpa using hcon)] at hused
    cases hused

/-- A new, empty anode block in the index. -/
structure NewBlock (w : Writer) (view view' : ℕ → Except Fault Bytes) (free free' : ℕ → Bool)
    (s blk : ℕ) (fresh : Bytes) : Prop where
  table : w.Table view' free'
  less : ∀ k, free' k = true → free k = true
  data : view' blk = .ok fresh
  id : be16 fresh 0 = ABLKID
  length : fresh.length = w.resblocksize
  ne_zero : blk ≠ 0
  taken : ∃ k, blk = w.firstreserved + k * w.rescluster ∧ free k = true
  there : w.vol.anodes.resolveIn view' s = .ok blk
  elsewhere : ∀ s', s' ≠ s → w.vol.anodes.resolveIn view' s' = w.vol.anodes.resolveIn view s'
  anodes : ∀ s' b, b ≠ 0 → w.vol.anodes.resolveIn view s' = .ok b → view' b = view b
  outside : ∀ b, w.Outside view free b → w.Outside view' free' b ∧ view' b = view b

/-- No anode block has this sequence number. -/
def lacks (w : Writer) (s : ℕ) : Bool :=
  match w.vol.anodes.resolveIn w.blockOf s with
  | .ok b => b == 0
  | .error _ => false

/-- The first sequence number without an anode block. -/
def firstMissing (w : Writer) : Option ℕ := (List.range 256).find? w.lacks

/-- On the way of a call that adds anodes: the index is as it was, up to the block that is missing
first. -/
structure Adding (w : Writer) (view : ℕ → Except Fault Bytes) (free : ℕ → Bool) : Prop where
  table : w.Table view free
  less : ∀ k, free k = true → w.isFree k = true
  index : ∀ i, w.vol.anodes.indexIn w.blockOf i ≠ .ok 0 →
    w.vol.anodes.indexIn view i = w.vol.anodes.indexIn w.blockOf i
  elsewhere : ∀ s, w.firstMissing ≠ some s →
    w.vol.anodes.resolveIn view s = w.vol.anodes.resolveIn w.blockOf s

theorem Indexed.adding (hx : w.Indexed)
    (hsame : ∀ p b, b ≠ 0 → w.vol.anodes.placeIn w.blockOf p = .ok b → view b = w.blockOf b)
    (hless : ∀ k, free k = true → w.isFree k = true) : w.Adding view free ∧
      ∀ p, w.vol.anodes.placeIn view p = w.vol.anodes.placeIn w.blockOf p := by
  have hplace : ∀ p, w.vol.anodes.placeIn view p = w.vol.anodes.placeIn w.blockOf p :=
    AnodeReader.placeIn_congr fun p b hb _ => hsame p b hb
  have hused : ∀ k, w.isFree k = false → free k = false := fun k hk => by
    by_contra hcon
    rw [hless k (by simpa using hcon)] at hk
    cases hk
  exact ⟨⟨hx.table.congr (fun p b hb _ => hsame p b hb) (fun k hk => hx.rootblock k (hless k hk))
    hused, hless, fun i _ => hplace (.index i), fun s _ => hplace (.anode s)⟩, hplace⟩

theorem newBlock_of_allocAnodeBlock (hw : w.Stable) (hx : w.Indexed)
    (hcluster : 0 < w.vol.rootblock.rblkcluster) (h : Ahead w w₁ view free)
    (hadding : w.Adding view free) {s blk : ℕ} (hmissing : w.firstMissing = some s)
    (hrun : allocAnodeBlock s w₁ = .ok blk w₂) : ∃ view' free' fresh,
      Ahead w w₂ view' free' ∧ w.NewBlock view view' free free' s blk fresh ∧
        w.Adding view' free' := by
  have hpos := hw.sectors.pos
  have hipb := hx.ipb
  have hless := hadding.less
  have ht := hadding.table
  obtain ⟨k, fresh, hblk, hfree, hid, hlen, hcases⟩ := of_allocAnodeBlock hw hx h hless hrun
  have hapart : ∀ p b, b ≠ 0 → w.vol.anodes.placeIn view p = .ok b → ∀ j, free j = true →
      b ≠ w.firstreserved + j * w.rescluster := by
    intro p b hb hp j hj hcon
    obtain ⟨k', hk', hused⟩ := ht.inUse p b hb hp
    have heq := Nat.eq_of_mul_eq_mul_right hpos (Nat.add_left_cancel (hcon.symm.trans hk'))
    rw [heq, hused] at hj
    cases hj
  have hne : ∀ p b, b ≠ 0 → w.vol.anodes.placeIn view p = .ok b → b ≠ blk := fun p b hb hp =>
    hblk ▸ hapart p b hb hp k hfree
  have hblk0 : blk ≠ 0 := by
    have hbehind := hx.rootblock k (hless k hfree)
    omega
  have helse' : ∀ v : ℕ → Except Fault Bytes,
      (∀ s', s' ≠ s → w.vol.anodes.resolveIn v s' = w.vol.anodes.resolveIn view s') →
      ∀ s', w.firstMissing ≠ some s' →
        w.vol.anodes.resolveIn v s' = w.vol.anodes.resolveIn w.blockOf s' := fun v hv s' hs' =>
    (hv s' fun hcon => hs' (hcon ▸ hmissing)).trans (hadding.elsewhere s' hs')
  rw [← hipb] at hcases
  rcases hcases with ⟨idx, data, data', hidx, hindex, hdata, hpatch, hahead⟩ |
    ⟨k', sup, idx, sdata, sdata', idata, hlarge, rfl, hsup, hold, hsdata, hidx, hkk, hfree',
      hpatch, hpatch', hahead⟩
  · have hindexv : w.vol.anodes.indexIn view (s / w.vol.anodes.indexPerBlock) = .ok idx :=
      (hadding.index _ (hindex ▸ fun hcon => hidx (Except.ok.inj hcon))).trans hindex
    have hview : ∀ p b, b ≠ 0 → b ≠ idx → w.vol.anodes.placeIn view p = .ok b →
        Function.update (Function.update view blk (.ok fresh)) idx (.ok data') b = view b :=
      fun p b hb hbi hp => by
        rw [Function.update_of_ne hbi, Function.update_of_ne (hne p b hb hp)]
    obtain ⟨hindexes, hthere, helse⟩ := AnodeReader.entered_of_index ht.apart hindexv hidx hdata
      (Function.update_self ..) (fun off hoff => by rw [hpatch.entry, if_neg hoff]) hview
    rw [hpatch.entry, if_pos rfl] at hthere
    have hanodes : ∀ s' b, b ≠ 0 → w.vol.anodes.resolveIn view s' = .ok b →
        Function.update (Function.update view blk (.ok fresh)) idx (.ok data') b = view b :=
      fun s' b hb hp => hview (.anode s') b hb (fun hcon => by
        cases ht.apart (.anode s') (.index _) b hb hp (hcon ▸ hindexv)) hp
    have hless' : ∀ j, Function.update free k false j = true → free j = true := fun j hj => by
      by_cases hjk : j = k
      · rw [hjk]
        exact hfree
      · rw [Function.update_of_ne hjk] at hj
        exact hj
    generalize hv : Function.update (Function.update view blk (.ok fresh)) idx (.ok data') = view'
      at hahead hview hindexes hthere helse hanodes
    have hplaces : ∀ p b, b ≠ 0 → w.vol.anodes.placeIn view' p = .ok b →
        w.vol.anodes.placeIn view p = .ok b ∨ (p = .anode s ∧ b = blk) := by
      intro p b _ hp
      cases p with
      | super n => exact Or.inl hp
      | index i => exact Or.inl ((hindexes i).symm.trans hp)
      | anode s' =>
          by_cases hs : s' = s
          · rw [AnodeReader.placeIn, hs, hthere] at hp
            exact Or.inr ⟨by rw [hs], (Except.ok.inj hp).symm⟩
          · exact Or.inl ((helse s' hs).symm.trans hp)
    have hnew : ∀ p b, p = Place.anode s ∧ b = blk → ∃ j, b = w.firstreserved + j * w.rescluster ∧
        free j = true ∧ Function.update free k false j = false := by
      rintro p b ⟨-, rfl⟩
      exact ⟨k, hblk, hfree, Function.update_self ..⟩
    have htable := ht.extend hpos hplaces hnew (by
      rintro p q b ⟨rfl, -⟩ ⟨rfl, -⟩
      rfl) hless'
    refine ⟨_, _, fresh, hahead, ⟨htable, hless', ?_, hid, hlen, hblk0,
      ⟨k, hblk, hfree⟩, hthere, helse, hanodes, fun b hb => ⟨hb.extend hplaces hnew hless', ?_⟩⟩,
      ⟨htable, fun j hj => hless j (hless' j hj),
        fun i hi => (hindexes i).trans (hadding.index i hi), helse' _ helse⟩⟩
    · rw [← hv, Function.update_of_ne (hne (.index _) idx hidx hindexv).symm, Function.update_self]
    · have hbi : b ≠ idx := fun hcon => hb.place (.index _) (hcon ▸ hindexv)
      rw [← hv, Function.update_of_ne hbi, Function.update_of_ne (hblk ▸ hb.ne hfree)]
  · generalize hs' : w.vol.anodes.superindex.getD (s / w.vol.anodes.indexPerBlock /
      w.vol.anodes.indexPerBlock) 0 = sup at hsup hsdata hahead
    have hsplace : ∀ v, w.vol.anodes.placeIn v
        (.super (s / w.vol.anodes.indexPerBlock / w.vol.anodes.indexPerBlock)) = .ok sup :=
      fun v => (AnodeReader.super_place hlarge _).trans (by rw [hs'])
    have hempty : ∀ s', s' ≠ s →
        s' / w.vol.anodes.indexPerBlock = s / w.vol.anodes.indexPerBlock →
        w.vol.anodes.resolveIn view s' = .ok 0 := fun s' hs' hdiv => by
      rw [hadding.elsewhere s' fun hcon => hs' (Option.some.inj (hcon.symm.trans hmissing)),
        AnodeReader.resolveIn_of_index (hdiv ▸ hold), if_pos rfl]
    have hne' : ∀ p b, b ≠ 0 → w.vol.anodes.placeIn view p = .ok b → b ≠ idx :=
      fun p b hb hp => hidx ▸ hapart p b hb hp k' hfree'
    have hidx0 : idx ≠ 0 := by
      have hbehind := hx.rootblock k' (hless k' hfree')
      omega
    have hib : idx ≠ blk := by
      intro hcon
      rw [hidx, hblk] at hcon
      exact hkk (Nat.eq_of_mul_eq_mul_right hpos (Nat.add_left_cancel hcon))
    have hsb := hne _ sup hsup (hsplace view)
    have hsi := hne' _ sup hsup (hsplace view)
    have hview : ∀ p b, b ≠ 0 → b ≠ sup → w.vol.anodes.placeIn view p = .ok b →
        Function.update (Function.update (Function.update view blk (.ok fresh)) idx (.ok idata))
          sup (.ok sdata') b = view b := fun p b hb hbs hp => by
      rw [Function.update_of_ne hbs, Function.update_of_ne (hne' p b hb hp),
        Function.update_of_ne (hne p b hb hp)]
    have hidata : Function.update (Function.update (Function.update view blk (.ok fresh)) idx
        (.ok idata)) sup (.ok sdata') idx = .ok idata := by
      rw [Function.update_of_ne hsi.symm, Function.update_self]
    have hsself : Function.update (Function.update (Function.update view blk (.ok fresh)) idx
        (.ok idata)) sup (.ok sdata') sup = .ok sdata' := Function.update_self ..
    generalize hv : Function.update (Function.update (Function.update view blk (.ok fresh)) idx
      (.ok idata)) sup (.ok sdata') = view' at hahead hview hidata hsself
    obtain ⟨hthere, hindexes, helse⟩ := @AnodeReader.entered_of_super w.vol.anodes view view'
      s idx sdata sdata' ht.apart hlarge (hs' ▸ hsup) (hs' ▸ hsdata) (hs' ▸ hsself) hempty
      (by rw [hpatch'.entry, if_pos rfl]) (fun off hoff => by rw [hpatch'.entry, if_neg hoff])
      (fun _ => ⟨idata, hidata, fun off hoff => by
        rw [hpatch.entry, if_neg hoff]
        rfl⟩) (hs' ▸ hview)
    have hres : w.vol.anodes.resolveIn view' s = .ok blk := by
      rw [AnodeReader.resolveIn_of_index hthere, if_neg hidx0, AnodeReader.entryIn_ok hidata,
        hpatch.entry, if_pos rfl]
    have hanodes : ∀ s' b, b ≠ 0 → w.vol.anodes.resolveIn view s' = .ok b → view' b = view b :=
      fun s' b hb hp => hview (.anode s') b hb (fun hcon => by
        cases ht.apart (.anode s') (.super _) b hb hp (hcon ▸ hsplace view)) hp
    have hless' : ∀ j, Function.update (Function.update free k false) k' false j = true →
        free j = true := fun j hj => by
      by_cases hjk' : j = k'
      · rw [hjk']
        exact hfree'
      · rw [Function.update_of_ne hjk'] at hj
        by_cases hjk : j = k
        · rw [hjk]
          exact hfree
        · rw [Function.update_of_ne hjk] at hj
          exact hj
    have hplaces : ∀ p b, b ≠ 0 → w.vol.anodes.placeIn view' p = .ok b →
        w.vol.anodes.placeIn view p = .ok b ∨ (p = .anode s ∧ b = blk ∨
          p = .index (s / w.vol.anodes.indexPerBlock) ∧ b = idx) := by
      intro p b _ hp
      cases p with
      | super n => exact Or.inl hp
      | index i =>
          by_cases hi : i = s / w.vol.anodes.indexPerBlock
          · rw [AnodeReader.placeIn, hi, hthere] at hp
            exact Or.inr (Or.inr ⟨by rw [hi], (Except.ok.inj hp).symm⟩)
          · exact Or.inl ((hindexes i hi).symm.trans hp)
      | anode s' =>
          by_cases hs : s' = s
          · rw [AnodeReader.placeIn, hs, hres] at hp
            exact Or.inr (Or.inl ⟨by rw [hs], (Except.ok.inj hp).symm⟩)
          · exact Or.inl ((helse s' hs).symm.trans hp)
    have hnew : ∀ p b, (p = Place.anode s ∧ b = blk ∨
        p = Place.index (s / w.vol.anodes.indexPerBlock) ∧ b = idx) →
        ∃ j, b = w.firstreserved + j * w.rescluster ∧ free j = true ∧
          Function.update (Function.update free k false) k' false j = false := by
      rintro p b (⟨-, rfl⟩ | ⟨-, rfl⟩)
      · exact ⟨k, hblk, hfree, by rw [Function.update_of_ne hkk.symm, Function.update_self]⟩
      · exact ⟨k', hidx, hfree', Function.update_self ..⟩
    have honce : ∀ p q b, (p = Place.anode s ∧ b = blk ∨
        p = Place.index (s / w.vol.anodes.indexPerBlock) ∧ b = idx) →
        (q = Place.anode s ∧ b = blk ∨
          q = Place.index (s / w.vol.anodes.indexPerBlock) ∧ b = idx) → p = q := by
      rintro p q b (⟨rfl, hp⟩ | ⟨rfl, hp⟩) (⟨rfl, hq⟩ | ⟨rfl, hq⟩)
      · rfl
      · exact absurd (hq.symm.trans hp) hib
      · exact absurd (hp.symm.trans hq) hib
      · rfl
    have htable := ht.extend hpos hplaces hnew honce hless'
    refine ⟨_, _, fresh, hahead, ⟨htable, hless', ?_, hid, hlen, hblk0,
      ⟨k, hblk, hfree⟩, hres, helse, hanodes, fun b hb => ⟨hb.extend hplaces hnew hless', ?_⟩⟩,
      ⟨htable, fun j hj => hless j (hless' j hj), fun i hi => ?_, helse' _ helse⟩⟩
    · rw [← hv, Function.update_of_ne hsb.symm, Function.update_of_ne hib.symm,
        Function.update_self]
    · have hbs : b ≠ sup := fun hcon => hb.place _ (hcon ▸ hsplace view)
      rw [← hv, Function.update_of_ne hbs, Function.update_of_ne (hidx ▸ hb.ne hfree'),
        Function.update_of_ne (hblk ▸ hb.ne hfree)]
    · by_cases hi' : i = s / w.vol.anodes.indexPerBlock
      · rw [hi'] at hi
        exact absurd hold hi
      · exact (hindexes i hi').trans (hadding.index i hi)

/-- How the writer and the reader number the anodes. -/
structure Numbered (w : Writer) : Prop where
  split : w.vol.rootblock.isSplittedAnodes = w.vol.anodes.splitMode
  anodesPerBlock : w.anodesPerBlock = w.vol.anodes.anodesPerBlock
  first : ANODE_USERFIRST < w.anodesPerBlock
  small : w.anodesPerBlock ≤ 5460

theorem Alike.anodeNr (h : Alike w w₁) : w₁.anodeNr = w.anodeNr := by
  obtain ⟨m, hrb⟩ := h.rootblock
  have hsplit : w₁.vol.rootblock.isSplittedAnodes = w.vol.rootblock.isSplittedAnodes := by
    rw [hrb]
    rfl
  funext s o
  rw [Writer.anodeNr, Writer.anodeNr, hsplit, h.anodesPerBlock]

theorem Numbered.anodeNr_lt (hn : w.Numbered) {s o : ℕ} (hs : s < 256)
    (ho : o < w.anodesPerBlock) : w.anodeNr s o < U32 := by
  have hsmall := hn.small
  have hu : U32 = 4294967296 := rfl
  unfold Writer.anodeNr
  split
  · have hor := Nat.two_pow_add_eq_or_of_lt (show o < 2 ^ 16 by omega) s
    have hnr : s * 65536 ||| o = s * 65536 + o := by
      rw [Nat.mul_comm s]
      exact hor.symm
    rw [hnr]
    omega
  · have hle := Nat.mul_le_mul (Nat.le_of_lt hs) hsmall
    omega

theorem Numbered.le_anodeNr (w : Writer) (s : ℕ) :
    ANODE_USERFIRST ≤ w.anodeNr s ANODE_USERFIRST := by
  unfold Writer.anodeNr
  split
  · exact Nat.right_le_or
  · exact Nat.le_add_left _ _

/-- A new anode in a slot that had none. -/
structure NewAnode (w : Writer) (view view' : ℕ → Except Fault Bytes) (free free' : ℕ → Bool)
    (nr cs bn nx : ℕ) : Prop where
  lt : nr < U32
  ne_eof : nr ≠ ANODE_EOF
  reads : w.vol.anodes.anodeIn view' nr = .ok ⟨cs, bn, nx, nr⟩
  unused : ∀ an, w.vol.anodes.anodeIn view nr = .ok an → an.clustersize = 0 ∧ an.blocknr = 0
  other : ∀ nr' an, nr' ≠ nr → w.vol.anodes.anodeIn view nr' = .ok an →
    w.vol.anodes.anodeIn view' nr' = .ok an
  resolves : ∀ s b, b ≠ 0 → w.vol.anodes.resolveIn view s = .ok b →
    w.vol.anodes.resolveIn view' s = .ok b
  outside : ∀ b, w.Outside view free b → w.Outside view' free' b ∧ view' b = view b
  table : w.Table view' free'
  less : ∀ k, free' k = true → free k = true

/-- The end of the call: the slot is written, in the block of `s`. -/
theorem newAnode_of_put (hn : w.Numbered) {view₁ : ℕ → Except Fault Bytes} {free₁ : ℕ → Bool}
    (ht : w.Table view₁ free₁) (hless : ∀ k, free₁ k = true → free k = true)
    {s o blk cs bn nx : ℕ} {data data' : Bytes} (hs : s < 256) (ho : o < w.anodesPerBlock)
    (hfirst : ANODE_USERFIRST ≤ w.anodeNr s o) (hblk : blk ≠ 0)
    (hthere : w.vol.anodes.resolveIn view₁ s = .ok blk)
    (helse : ∀ s', s' ≠ s → w.vol.anodes.resolveIn view₁ s' = w.vol.anodes.resolveIn view s')
    (hanodes : ∀ s' b, b ≠ 0 → w.vol.anodes.resolveIn view s' = .ok b → view₁ b = view b)
    (houtside : ∀ b, w.Outside view free b → w.Outside view₁ free₁ b ∧ view₁ b = view b)
    (hput : SlotPut data data' o cs bn nx)
    (hold : w.vol.anodes.resolveIn view s = .ok 0 ∨ w.vol.anodes.resolveIn view s = .ok blk ∧
      view blk = .ok data ∧ be32 data (ANODE_BLOCK_HEADER_SIZE + o * ANODE_SIZE) = 0 ∧
      be32 data (ANODE_BLOCK_HEADER_SIZE + o * ANODE_SIZE + 4) = 0) :
    w.NewAnode view (Function.update view₁ blk (.ok data')) free free₁ (w.anodeNr s o) cs bn nx := by
  have hsplit := splitNr_anodeNr hn.split hn.anodesPerBlock (by have hsmall := hn.small; omega)
    (s := s) ho
  obtain ⟨hplace, htable⟩ := ht.writeAnode hblk hthere (.ok data')
  have hres : ∀ s', w.vol.anodes.resolveIn (Function.update view₁ blk (.ok data')) s' =
      w.vol.anodes.resolveIn view₁ s' := fun s' => hplace (.anode s')
  obtain ⟨hreads, hother⟩ := @AnodeReader.anodeIn_put w.vol.anodes view
    (Function.update view₁ blk (.ok data')) s o blk _ cs bn nx data data' hblk hsplit hput ((hres s).trans hthere)
    (Function.update_self ..) (fun s' hne => (hres s').trans (helse s' hne))
    (hold.imp_right fun h => ⟨h.1, h.2.1⟩) fun s' b hne hb hp => by
      rw [Function.update_of_ne, hanodes s' b hb hp]
      intro hcon
      rw [← helse s' hne, hcon] at hp
      have heq := ht.apart (.anode s') (.anode s) blk hblk hp hthere
      injection heq with heq
      exact hne heq
  refine ⟨hn.anodeNr_lt hs ho, ?_, hreads, fun an han => ?_, hother, fun s' b hb hp => ?_,
    fun b hb => ?_, htable, hless⟩
  · have hsix : ANODE_USERFIRST = 6 := rfl
    have heof : ANODE_EOF = 0 := rfl
    omega
  · obtain ⟨b, d, hb, hp, hd, hslot⟩ := AnodeReader.block_of_anodeIn han
    rw [hsplit] at hp hslot
    rcases hold with hzero | ⟨hthere₀, hdata, hfree⟩
    · rw [hzero] at hp
      exact absurd (Except.ok.inj hp).symm hb
    · rw [hthere₀] at hp
      cases hp
      rw [hdata] at hd
      cases hd
      rw [hput.before] at hslot
      cases hslot
      exact hfree
  · rw [hres]
    by_cases hne : s' = s
    · rw [hne] at hp ⊢
      rcases hold with hzero | ⟨hthere₀, -⟩
      · rw [hzero] at hp
        exact absurd (Except.ok.inj hp).symm hb
      · rw [hthere₀] at hp
        exact hthere.trans hp
    · exact (helse s' hne).trans hp
  · obtain ⟨hout, hsame⟩ := houtside b hb
    have hne : b ≠ blk := by
      rintro rfl
      exact hout.place (.anode s) hthere
    refine ⟨⟨hout.ne_zero, fun p => ?_, hout.used⟩, ?_⟩
    · rw [hplace]
      exact hout.place p
    · rw [Function.update_of_ne hne, hsame]

/-! ## The slot that is taken -/

/-- The slot holds no anode, and its number is not one of the reserved ones. -/
def isFreeSlot (w : Writer) (view : ℕ → Except Fault Bytes) (p : ℕ × ℕ) : Bool :=
  match w.vol.anodes.anodeIn view (w.anodeNr p.1 p.2) with
  | .ok an => decide (ANODE_USERFIRST ≤ w.anodeNr p.1 p.2 ∧ an.clustersize = 0 ∧ an.blocknr = 0)
  | .error _ => false

/-- The slots of the anode blocks before the first sequence number that has none. -/
def slotsOf (w : Writer) (seqs : List ℕ) : List (ℕ × ℕ) :=
  (seqs.takeWhile fun s => !w.lacks s) ×ˢ List.range w.anodesPerBlock

/-- The new anode is in a slot that was free. -/
structure InSlot (w : Writer) (view view' : ℕ → Except Fault Bytes) (s o cs bn nx : ℕ) : Prop where
  free : w.isFreeSlot view (s, o) = true
  put : ∃ blk data data', blk ≠ 0 ∧ w.vol.anodes.resolveIn view s = .ok blk ∧
    view blk = .ok data ∧ SlotPut data data' o cs bn nx ∧
    view' = Function.update view blk (.ok data')

/-- The new anode is in the first slot of a new block. -/
structure InNewBlock (w : Writer) (view view' : ℕ → Except Fault Bytes) (free free' : ℕ → Bool)
    (s cs bn nx : ℕ) : Prop where
  missing : w.firstMissing = some s
  put : ∃ view₁ blk fresh data', w.NewBlock view view₁ free free' s blk fresh ∧
    w.Adding view₁ free' ∧ SlotPut fresh data' ANODE_USERFIRST cs bn nx ∧
    view' = Function.update view₁ blk (.ok data')

theorem mem_slotsOf {seqs : List ℕ} {p : ℕ × ℕ} : p ∈ w.slotsOf seqs ↔
    p.1 ∈ seqs.takeWhile (fun s => !w.lacks s) ∧ p.2 < w.anodesPerBlock := by
  rw [slotsOf, ← List.mem_range]
  exact List.mem_product

theorem lacks_eq {s b : ℕ} (h : w.vol.anodes.resolveIn w.blockOf s = .ok b) :
    w.lacks s = (b == 0) := by
  unfold lacks
  rw [h]

/-- A block without a free slot. -/
theorem isFreeSlot_eq_false (hn : w.Numbered) {s o blk : ℕ} {data : Bytes} (hblk : blk ≠ 0)
    (hres : w.vol.anodes.resolveIn view s = .ok blk) (hdata : view blk = .ok data)
    (ho : o < w.anodesPerBlock)
    (htaken : be16 data 0 = ABLKID → ANODE_USERFIRST ≤ w.anodeNr s o →
      ¬ (be32 data (ANODE_BLOCK_HEADER_SIZE + o * ANODE_SIZE) = 0 ∧
        be32 data (ANODE_BLOCK_HEADER_SIZE + o * ANODE_SIZE + 4) = 0)) :
    w.isFreeSlot view (s, o) = false := by
  have hsplit := splitNr_anodeNr hn.split hn.anodesPerBlock (by have hsmall := hn.small; omega)
    (s := s) ho
  unfold isFreeSlot
  rw [AnodeReader.anodeIn_of_block hblk (by rw [hsplit]; exact hres) hdata, hsplit]
  unfold AnodeReader.anodeAt
  split
  · rename_i an hslot
    split at hslot
    · cases hslot
    · split at hslot
      · cases hslot
      · rename_i hid
        split at hslot
        · cases hslot
        · cases hslot
          exact decide_eq_false fun hcon => htaken (not_not.mp hid) hcon.1 hcon.2
  · rfl

theorem isFreeSlot_eq_true (hn : w.Numbered) {s o blk cs bn nx : ℕ} {data data' : Bytes}
    (hblk : blk ≠ 0) (hres : w.vol.anodes.resolveIn view s = .ok blk) (hdata : view blk = .ok data)
    (ho : o < w.anodesPerBlock) (hput : SlotPut data data' o cs bn nx)
    (hfirst : ANODE_USERFIRST ≤ w.anodeNr s o)
    (hcs : be32 data (ANODE_BLOCK_HEADER_SIZE + o * ANODE_SIZE) = 0)
    (hbn : be32 data (ANODE_BLOCK_HEADER_SIZE + o * ANODE_SIZE + 4) = 0) :
    w.isFreeSlot view (s, o) = true := by
  have hsplit := splitNr_anodeNr hn.split hn.anodesPerBlock (by have hsmall := hn.small; omega)
    (s := s) ho
  unfold isFreeSlot
  rw [AnodeReader.anodeIn_of_block hblk (by rw [hsplit]; exact hres) hdata, hsplit, hput.before]
  exact decide_eq_true ⟨hfirst, hcs, hbn⟩

/-- The new anode is in a free slot, unless there is none. -/
theorem of_allocAnodeLoop (hw : w.Stable) (hx : w.Indexed) (hn : w.Numbered)
    (hcluster : 0 < w.vol.rootblock.rblkcluster) (hadding : w.Adding view free)
    {cs bn nx nr : ℕ} (hcs : cs < U32) (hbn : bn < U32) (hnx : nx < U32) (seqs : List ℕ) :
    ∀ {w₁ : Writer}, (∀ s ∈ seqs, s < 256) → seqs.find? w.lacks = w.firstMissing →
    Ahead w w₁ view free → allocAnodeLoop cs bn nx seqs w₁ = .ok nr w₂ →
    ∃ s o view' free', nr = w.anodeNr s o ∧ s < 256 ∧ o < w.anodesPerBlock ∧
      ANODE_USERFIRST ≤ w.anodeNr s o ∧ Ahead w w₂ view' free' ∧
      ((s, o) ∈ w.slotsOf seqs ∧ free' = free ∧ w.InSlot view view' s o cs bn nx ∨
        o = ANODE_USERFIRST ∧ (∀ p ∈ w.slotsOf seqs, w.isFreeSlot view p = false) ∧
          w.InNewBlock view view' free free' s cs bn nx) := by
  induction seqs with
  | nil =>
      intro w₁ _ _ _ hrun
      cases hrun
  | cons s seqs ih =>
      intro w₁ hseqs hfind h hrun
      have hs := hseqs s List.mem_cons_self
      rw [allocAnodeLoop] at hrun
      obtain ⟨n, w₃, hnr, hrun₁⟩ := of_bind_eq_ok hrun
      obtain ⟨hres, hahead⟩ := h.getAnodeBlockNr hw hx hnr
      have hlacks := lacks_eq hres
      by_cases hzero : n = 0
      · -- a new anode block, and its first slot
        rw [hzero, beq_self_eq_true] at hlacks
        rw [List.find?_cons_of_pos hlacks] at hfind
        rw [if_pos hzero] at hrun₁
        obtain ⟨blk, w₄, halloc, hrun₂⟩ := of_bind_eq_ok hrun₁
        obtain ⟨view₁, free₁, fresh, hahead, hnew, hadding₁⟩ :=
          newBlock_of_allocAnodeBlock hw hx hcluster hahead hadding hfind.symm halloc
        obtain ⟨data, w₅, hread, hrun₃⟩ := of_bind_eq_ok hrun₂
        obtain ⟨hstay, hdata⟩ := hahead.readReservedRaw hread
        rw [hstay] at hrun₃
        rw [hnew.data] at hdata
        cases hdata
        rw [bind_of_ok (rfl : (get : WriterM Writer) _ = .ok _ _)] at hrun₃
        have hnum := hahead.toAlike.anodeNr
        obtain ⟨data', w₆, hput, hrun₄⟩ := of_bind_eq_ok hrun₃
        obtain ⟨hput, hstay⟩ := Format.of_lift_ok hput
        rw [hstay] at hrun₄
        obtain ⟨_, w₇, hwrite, hrun₅⟩ := of_bind_eq_ok hrun₄
        have hslot := of_putAnode hput hnew.id hcs hbn hnx
        obtain ⟨k, hk, hfree⟩ := hnew.taken
        have hahead := hahead.writeReserved ⟨k, hk⟩ (hslot.length.trans hnew.length) hwrite
        cases hrun₅
        rw [hnum]
        refine ⟨s, ANODE_USERFIRST, _, _, rfl, hs, hn.first, Numbered.le_anodeNr w s, hahead,
          Or.inr ⟨rfl, fun p hp => ?_, hfind.symm, _, blk, fresh, data', hnew, hadding₁, hslot,
            rfl⟩⟩
        have hmem := (mem_slotsOf.mp hp).1
        rw [List.takeWhile_cons_of_neg (by rw [hlacks]; decide)] at hmem
        cases hmem
      · have hlacks' : w.lacks s = false := by
          rw [hlacks]
          exact beq_eq_false_iff_ne.mpr hzero
        have hhere : w.firstMissing ≠ some s := fun hcon => by
          have htrue := List.find?_some hcon
          rw [hlacks'] at htrue
          cases htrue
        have hresv := (hadding.elsewhere s hhere).trans hres
        rw [List.find?_cons_of_neg (by rw [hlacks']; decide)] at hfind
        have hwhile : (s :: seqs).takeWhile (fun s => !w.lacks s) =
            s :: seqs.takeWhile fun s => !w.lacks s :=
          List.takeWhile_cons_of_pos (by rw [hlacks']; rfl)
        rw [if_neg hzero] at hrun₁
        obtain ⟨data, w₄, hread, hrun₂⟩ := of_bind_eq_ok hrun₁
        obtain ⟨hstay, hdata⟩ := hahead.readReservedRaw hread
        rw [hstay] at hrun₂
        obtain ⟨id, w₅, hid, hrun₃⟩ := of_bind_eq_ok hrun₂
        obtain ⟨hid, hstay⟩ := Format.of_lift_ok hid
        rw [hstay] at hrun₃
        have hid' : id = be16 data 0 := by
          unfold readU16 at hid
          split at hid
          · exact (Except.ok.inj hid).symm
          · cases hid
        -- the later blocks, if this one has no free slot
        have hlater : ∀ w', Ahead w w' view free → allocAnodeLoop cs bn nx seqs w' = .ok nr w₂ →
            (∀ o < w.anodesPerBlock, w.isFreeSlot view (s, o) = false) →
            ∃ s' o view' free', nr = w.anodeNr s' o ∧ s' < 256 ∧ o < w.anodesPerBlock ∧
              ANODE_USERFIRST ≤ w.anodeNr s' o ∧ Ahead w w₂ view' free' ∧
              ((s', o) ∈ w.slotsOf (s :: seqs) ∧ free' = free ∧ w.InSlot view view' s' o cs bn nx ∨
                o = ANODE_USERFIRST ∧ (∀ p ∈ w.slotsOf (s :: seqs), w.isFreeSlot view p = false) ∧
                  w.InNewBlock view view' free free' s' cs bn nx) := by
          intro w' h hrun hfull
          obtain ⟨s', o, view', free', hnr, hs', ho, hfirst, hahead, hcase⟩ :=
            ih (fun x hx => hseqs x (List.mem_cons_of_mem _ hx)) hfind h hrun
          refine ⟨s', o, view', free', hnr, hs', ho, hfirst, hahead, ?_⟩
          rcases hcase with ⟨hmem, hcase⟩ | ⟨ho', hall, hcase⟩
          · refine Or.inl ⟨mem_slotsOf.mpr ⟨?_, ho⟩, hcase⟩
            rw [hwhile]
            exact List.mem_cons_of_mem _ (mem_slotsOf.mp hmem).1
          · refine Or.inr ⟨ho', fun p hp => ?_, hcase⟩
            obtain ⟨hmem, hlt⟩ := mem_slotsOf.mp hp
            rw [hwhile] at hmem
            rcases List.mem_cons.mp hmem with heq | hmem
            · have hfull := hfull p.2 hlt
              rw [← heq] at hfull
              exact hfull
            · exact hall p (mem_slotsOf.mpr ⟨hmem, hlt⟩)
        by_cases hblock : id ≠ ABLKID
        · rw [if_pos hblock] at hrun₃
          exact hlater _ hahead hrun₃ fun o ho => isFreeSlot_eq_false hn hzero hresv hdata ho
            fun hcon => absurd (hid'.trans hcon) hblock
        · rw [if_neg hblock, bind_of_ok (rfl : (get : WriterM Writer) _ = .ok _ _)] at hrun₃
          obtain ⟨found, w₆, hfound, hrun₄⟩ := of_bind_eq_ok hrun₃
          obtain ⟨hfound, hstay⟩ := Format.of_lift_ok hfound
          rw [hstay] at hrun₄
          have hnum := hahead.toAlike.anodeNr
          cases found with
          | none =>
              refine hlater _ hahead hrun₄ fun o ho => isFreeSlot_eq_false hn hzero hresv hdata ho
                fun _ hfirst => ?_
              rw [← hnum] at hfirst
              refine taken_of_findFreeSlot _ hfound o (Nat.zero_le _) ?_ hfirst
              rw [hahead.anodesPerBlock, Nat.zero_add]
              exact ho
          | some o =>
              dsimp only at hrun₄
              obtain ⟨data', w₇, hput, hrun₅⟩ := of_bind_eq_ok hrun₄
              obtain ⟨hput, hstay⟩ := Format.of_lift_ok hput
              rw [hstay] at hrun₅
              obtain ⟨_, w₈, hwrite, hrun₆⟩ := of_bind_eq_ok hrun₅
              have hslot := of_putAnode hput (hid'.symm.trans (not_not.mp hblock)) hcs hbn hnx
              obtain ⟨-, hlt, hfirst, hcs₀, hbn₀⟩ := of_findFreeSlot _ hfound
              rw [hnum] at hfirst
              rw [hahead.anodesPerBlock, Nat.zero_add] at hlt
              obtain ⟨k, hk, -⟩ := hadding.table.inUse (.anode s) n hzero hresv
              have hlen := hahead.length hdata hw.sectors.le
              have hahead := hahead.writeReserved ⟨k, hk⟩ (hslot.length.trans hlen) hwrite
              cases hrun₆
              rw [hnum]
              exact ⟨s, o, _, free, rfl, hs, hlt, hfirst, hahead,
                Or.inl ⟨mem_slotsOf.mpr ⟨hwhile ▸ List.mem_cons_self, hlt⟩, rfl,
                  isFreeSlot_eq_true hn hzero hresv hdata hlt hslot hfirst hcs₀ hbn₀,
                  n, data, data', hzero, hresv, hdata, hslot, rfl⟩⟩

/-- A slot that was free held an anode without blocks. -/
theorem anode_of_isFreeSlot {s o : ℕ} (h : w.isFreeSlot view (s, o) = true) :
    ∃ an, w.vol.anodes.anodeIn view (w.anodeNr s o) = .ok an ∧ an.clustersize = 0 ∧
      an.blocknr = 0 := by
  unfold isFreeSlot at h
  split at h
  · rename_i an han
    exact ⟨an, han, (of_decide_eq_true h).2⟩
  · cases h

theorem InSlot.newAnode (hn : w.Numbered) (hadding : w.Adding view free) {s o cs bn nx : ℕ}
    (hs : s < 256) (ho : o < w.anodesPerBlock) (hfirst : ANODE_USERFIRST ≤ w.anodeNr s o)
    (h : w.InSlot view view' s o cs bn nx) :
    w.NewAnode view view' free free (w.anodeNr s o) cs bn nx := by
  obtain ⟨blk, data, data', hblk, hres, hdata, hput, rfl⟩ := h.put
  obtain ⟨an, han, hcs, hbn⟩ := anode_of_isFreeSlot h.free
  have hsplit := splitNr_anodeNr hn.split hn.anodesPerBlock (by have hsmall := hn.small; omega)
    (s := s) ho
  rw [AnodeReader.anodeIn_of_block hblk (by rw [hsplit]; exact hres) hdata, hsplit,
    hput.before] at han
  cases han
  exact newAnode_of_put hn hadding.table (fun _ hk => hk) hs ho hfirst hblk hres
    (fun _ _ => rfl) (fun _ _ _ _ => rfl) (fun b hb => ⟨hb, rfl⟩) hput
    (Or.inr ⟨hres, hdata, hcs, hbn⟩)

theorem InNewBlock.newAnode (hn : w.Numbered) {s cs bn nx : ℕ} (hs : s < 256)
    (hres : w.vol.anodes.resolveIn view s = .ok 0)
    (h : w.InNewBlock view view' free free' s cs bn nx) :
    w.NewAnode view view' free free' (w.anodeNr s ANODE_USERFIRST) cs bn nx := by
  obtain ⟨view₁, blk, fresh, data', hnew, -, hput, rfl⟩ := h.put
  exact newAnode_of_put hn hnew.table hnew.less hs hn.first (Numbered.le_anodeNr w s)
    hnew.ne_zero hnew.there hnew.elsewhere hnew.anodes hnew.outside hput (Or.inl hres)

theorem resolveIn_of_firstMissing {s : ℕ} (h : w.firstMissing = some s) :
    w.vol.anodes.resolveIn w.blockOf s = .ok 0 := by
  have htrue := List.find?_some h
  unfold lacks at htrue
  split at htrue
  · rename_i b hb
    rw [hb, beq_iff_eq.mp htrue]
  · cases htrue

theorem newAnode_of_allocAnode (hw : w.Stable) (hx : w.Indexed) (hn : w.Numbered)
    (hcluster : 0 < w.vol.rootblock.rblkcluster) {cs bn nx nr : ℕ} (hcs : cs < U32)
    (hbn : bn < U32) (hnx : nx < U32) (h : Ahead w w₁ view free)
    (hsame : ∀ p b, b ≠ 0 → w.vol.anodes.placeIn w.blockOf p = .ok b → view b = w.blockOf b)
    (hless : ∀ k, free k = true → w.isFree k = true)
    (hrun : allocAnode cs bn nx w₁ = .ok nr w₂) : ∃ view' free', Ahead w w₂ view' free' ∧
      w.NewAnode view view' free free' nr cs bn nx := by
  obtain ⟨hadding, hplace⟩ := hx.adding hsame hless
  obtain ⟨s, o, view', free', rfl, hs, ho, hfirst, hahead, hcase⟩ :=
    of_allocAnodeLoop hw hx hn hcluster hadding hcs hbn hnx _ (fun _ hs => List.mem_range.mp hs)
      rfl h hrun
  rcases hcase with ⟨-, rfl, hslot⟩ | ⟨rfl, -, hnew⟩
  · exact ⟨view', _, hahead, hslot.newAnode hn hadding hs ho hfirst⟩
  · exact ⟨view', free', hahead, hnew.newAnode hn hs
      ((hplace (.anode s)).trans (resolveIn_of_firstMissing hnew.missing))⟩

end Table

end Writer

end Pfs3
