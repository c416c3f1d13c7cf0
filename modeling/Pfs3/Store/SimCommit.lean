import Pfs3.Store.DeviceWrites
import Pfs3.Store.SimDirs

/-!
# Simulation: data blocks and commit

Writing file data, and the rootblock update: the queue is written block by block, then the
rootblock cluster, after which the device holds what the queue had shown.
-/

namespace Pfs3

open ByteList BlockCache Stop BitRun

theorem Writer.onDev_ok {α : Type} {m : EStateM Fault Device α} {w : Writer} {a : α} {d : Device}
    (h : m w.vol.dev = .ok a d) : Writer.onDev m w = .ok a { w with vol.dev := d } := by
  simp only [Writer.onDev, Writer.onVol, zoom, Writer.setVol, h]

/-! ## The queue -/

/-- The volume after some of the queue was written, each block dropped from the cache. -/
def Volume.flushed (q : List (ℕ × Bytes)) (v : Volume) : Volume :=
  { v with
    dev := v.dev.putMany q
    cache := q.foldl (fun c p => c.invalidate p.1) v.cache }

theorem flushWrites_ok (q : List (ℕ × Bytes)) : ∀ {w : Writer}, w.vol.dev.Sound →
    (∀ p ∈ q, p.1 + 1 < w.vol.dev.total) → w.rescluster = 2 →
    Writer.flushWrites q w = .ok () (Writer.setVol (w.vol.flushed q) w) := by
  induction q with
  | nil => exact fun _ _ _ => rfl
  | cons p q ih =>
      intro w hs hq hres
      obtain ⟨b, data⟩ := p
      have hwrite := Device.writeReservedBlocks_ok hs (hq _ List.mem_cons_self) data
      rw [Writer.flushWrites, bind_of_ok (rfl : (get : WriterM Writer) w = .ok w w), hres,
        bind_of_ok (Writer.onDev_ok hwrite)]
      exact @ih (Writer.setVol (w.vol.flushed [(b, data)]) w) ((hs.put _ _).put _ _)
        (fun p hp => hq p (List.mem_cons_of_mem _ hp)) hres

/-- Dropping a block keeps the cache in line with a device that differs in it. -/
theorem coherent_flushed {g : Geometry} {dev dev' : Device} (q : List (ℕ × Bytes)) :
    ∀ {c : BlockCache}, c.Coherent dev 1024 g.IsReserved →
    (∀ k, g.IsReserved k → (∀ p ∈ q, k ≠ p.1) →
      dev'.readReserved 1024 k = dev.readReserved 1024 k) →
    (q.foldl (fun c p => c.invalidate p.1) c).Coherent dev' 1024 g.IsReserved := by
  have hkeys : ∀ (q : List (ℕ × Bytes)) (c : BlockCache) k e,
      (q.foldl (fun c p => c.invalidate p.1) c).entries.lookup k = some e →
      c.entries.lookup k = some e ∧ ∀ p ∈ q, k ≠ p.1 := by
    intro q
    induction q with
    | nil => exact fun c k e h => ⟨h, fun p hp => absurd hp List.not_mem_nil⟩
    | cons p q ih =>
        intro c k e h
        obtain ⟨hl, hq⟩ := ih (c.invalidate p.1) k e h
        have hfilter := lookup_filter_ne c.entries p.1 k
        change (c.entries.filter fun r => r.1 != p.1).lookup k = some e at hl
        rw [hfilter] at hl
        split at hl
        · cases hl
        · rename_i hne
          refine ⟨hl, fun r hr => ?_⟩
          rcases List.mem_cons.mp hr with rfl | hr
          · exact hne
          · exact hq r hr
  intro c hc hdev k e hk
  obtain ⟨hl, hq⟩ := hkeys q c k e hk
  obtain ⟨hP, hread⟩ := hc k e hl
  exact ⟨hP, (hdev k hP hq).trans hread⟩

/-! ## The rootblock cluster -/

/-- The cluster with the datestamp and the counters of a commit. -/
def rootHead (c : Bytes) (ds reservedFree blocksfree : ℕ) : Bytes :=
  splice (splice (splice c RB_OFF_DATESTAMP (enc32 ds)) RB_OFF_RESERVED_FREE
    (enc32 reservedFree)) RB_OFF_BLOCKSFREE (enc32 blocksfree)

/-- The cluster that a commit writes. -/
def rootCluster (c : Bytes) (ds reservedFree blocksfree : ℕ) (words : List (BitVec 32)) : Bytes :=
  splice (rootHead c ds reservedFree blocksfree) (SECTOR_SIZE + 12)
    (words.flatMap fun l => enc32 l.toNat)

theorem length_words_bytes (words : List (BitVec 32)) :
    (words.flatMap fun l => enc32 l.toNat).length = words.length * 4 := by
  rw [List.length_flatMap]
  simp

section Cluster

variable {c : Bytes} {ds reservedFree blocksfree : ℕ} {words : List (BitVec 32)}

theorem length_stamped (hc : 536 ≤ c.length) :
    (splice c 8 (enc32 ds)).length = c.length ∧
    (splice (splice c 8 (enc32 ds)) 0x3C (enc32 reservedFree)).length = c.length ∧
    (rootHead c ds reservedFree blocksfree).length = c.length := by
  have hl₁ : (splice c 8 (enc32 ds)).length = c.length := length_splice (by simp; omega)
  have hl₂ : (splice (splice c 8 (enc32 ds)) 0x3C (enc32 reservedFree)).length = c.length :=
    (length_splice (by simp; omega)).trans hl₁
  exact ⟨hl₁, hl₂, (length_splice (by simp [RB_OFF_BLOCKSFREE]; exact hl₂ ▸ by omega)).trans hl₂⟩

theorem length_rootCluster (hc₀ : 536 ≤ c.length)
    (hc : 524 + words.length * 4 ≤ c.length) :
    (rootCluster c ds reservedFree blocksfree words).length = c.length := by
  obtain ⟨-, -, hl⟩ := @length_stamped c ds reservedFree blocksfree hc₀
  have hw := length_words_bytes words
  have hs : SECTOR_SIZE = 512 := rfl
  exact (length_splice (by rw [hw, hl, hs]; omega)).trans hl

/-- The static fields of the first sector stay as they are. -/
theorem window_rootHead (hc : 536 ≤ c.length) {i n : ℕ} (h₁ : i + n ≤ 8 ∨ 12 ≤ i)
    (h₂ : i + n ≤ 0x3C ∨ 0x40 ≤ i) (h₃ : i + n ≤ 0x44 ∨ 0x48 ≤ i) :
    Window c (rootHead c ds reservedFree blocksfree) i n := by
  obtain ⟨hl₁, hl₂, -⟩ := @length_stamped c ds reservedFree blocksfree hc
  unfold rootHead RB_OFF_DATESTAMP RB_OFF_RESERVED_FREE RB_OFF_BLOCKSFREE
  exact (((Window.refl c i n).splice (by simp; omega) (by simp; omega)).splice (by simp; omega)
    (by simp; omega)).splice (by simp; omega) (by simp; omega)

theorem window_rootCluster (hc₀ : 536 ≤ c.length)
    (hc : 524 + words.length * 4 ≤ c.length) {i n : ℕ}
    (hn : i + n ≤ 524) : Window (rootHead c ds reservedFree blocksfree)
      (rootCluster c ds reservedFree blocksfree words) i n := by
  obtain ⟨-, -, hl⟩ := @length_stamped c ds reservedFree blocksfree hc₀
  have hs : SECTOR_SIZE = 512 := rfl
  have hw := length_words_bytes words
  exact (Window.refl _ i n).splice (by rw [hw, hl, hs]; omega) (by rw [hs]; omega)

/-- Parsing the cluster of a commit. -/
theorem parse_rootCluster (hc₀ : 536 ≤ c.length)
    (hc : 524 + words.length * 4 ≤ c.length) {rb : Rootblock}
    (hrb : Rootblock.parse c = .ok rb) :
    Rootblock.parse (rootCluster c ds reservedFree blocksfree words) =
      .ok { rb with
        datestamp := ds % 2 ^ 32
        reservedFree := reservedFree % 2 ^ 32
        blocksfree := blocksfree % 2 ^ 32 } := by
  obtain ⟨hl₁, hl₂, hl⟩ := @length_stamped c ds reservedFree blocksfree hc₀
  have hlen := @length_rootCluster c ds reservedFree blocksfree words hc₀ hc
  have hw : ∀ i n, i + n ≤ 512 → Window (rootHead c ds reservedFree blocksfree)
      (rootCluster c ds reservedFree blocksfree words) i n := fun i n h =>
    window_rootCluster hc₀ hc (by omega)
  have hwin : ∀ i n, (i + n ≤ 8 ∨ 12 ≤ i) → (i + n ≤ 0x3C ∨ 0x40 ≤ i) →
      (i + n ≤ 0x44 ∨ 0x48 ≤ i) → i + n ≤ 512 →
      Window c (rootCluster c ds reservedFree blocksfree words) i n := fun i n h₁ h₂ h₃ h₄ =>
    (hw i n h₄).trans (window_rootHead hc₀ h₁ h₂ h₃)
  have hstamp : be32 (rootHead c ds reservedFree blocksfree) RB_OFF_DATESTAMP = ds % 2 ^ 32 := by
    unfold rootHead RB_OFF_DATESTAMP RB_OFF_RESERVED_FREE RB_OFF_BLOCKSFREE
    rw [be32_splice_ne (by simp; omega) (by omega), be32_splice_ne (by simp; omega) (by omega),
      be32_splice_self (by omega)]
  have hres : be32 (rootHead c ds reservedFree blocksfree) RB_OFF_RESERVED_FREE =
      reservedFree % 2 ^ 32 := by
    unfold rootHead RB_OFF_DATESTAMP RB_OFF_RESERVED_FREE RB_OFF_BLOCKSFREE
    rw [be32_splice_ne (by simp; omega) (by omega), be32_splice_self (by omega)]
  have hfree : be32 (rootHead c ds reservedFree blocksfree) RB_OFF_BLOCKSFREE =
      blocksfree % 2 ^ 32 := by
    unfold rootHead RB_OFF_DATESTAMP RB_OFF_RESERVED_FREE RB_OFF_BLOCKSFREE
    rw [be32_splice_self (by omega)]
  have hname : diskName (rootCluster c ds reservedFree blocksfree words) = rb.diskname :=
    (diskName_window (hwin 0x14 0x20 (by omega) (by omega) (by omega) (by omega))).trans
      (parse_diskname hrb).symm
  rw [parse_window (by omega) (by omega) (hwin 0 8 (by omega) (by omega) (by omega) (by omega))
    (hwin 0x34 8 (by omega) (by omega) (by omega) (by omega))
    (hwin 0x40 4 (by omega) (by omega) (by omega) (by omega))
    (hwin 0x48 440 (by omega) (by omega) (by omega) (by omega)), hrb,
    (hw 8 4 (by omega)).be32 (j := RB_OFF_DATESTAMP) (by simp [RB_OFF_DATESTAMP])
      (by simp [RB_OFF_DATESTAMP]),
    (hw 0x3C 4 (by omega)).be32 (j := RB_OFF_RESERVED_FREE) (by simp [RB_OFF_RESERVED_FREE])
      (by simp [RB_OFF_RESERVED_FREE]),
    (hw 0x44 4 (by omega)).be32 (j := RB_OFF_BLOCKSFREE) (by simp [RB_OFF_BLOCKSFREE])
      (by simp [RB_OFF_BLOCKSFREE]), hstamp, hres, hfree, hname]
  rfl

theorem beWords_drop (k : ℕ) (l : Bytes) : beWords (l.drop (k * 4)) = (beWords l).drop k := by
  induction k generalizing l with
  | zero => simp
  | succ k ih =>
      rw [Nat.succ_mul]
      rcases l with _ | ⟨a, _ | ⟨b, _ | ⟨c, _ | ⟨e, l⟩⟩⟩⟩
      · simp [beWords]
      · simp [beWords]
      · simp [beWords]
      · simp [beWords]
      · simp only [beWords, List.drop_succ_cons, ih]

/-- The bitmap words of the cluster of a commit. -/
theorem readWords_rootCluster (hc₀ : 536 ≤ c.length)
    (hc : 524 + words.length * 4 ≤ c.length) {n : ℕ}
    (hn : words.length ≤ n) :
    (readWords (rootCluster c ds reservedFree blocksfree words) (SECTOR_SIZE + 12) n).map
        (BitVec.ofNat 32) =
      words ++ ((readWords c (SECTOR_SIZE + 12) n).map (BitVec.ofNat 32)).drop words.length := by
  obtain ⟨hl₁, hl₂, hl⟩ := @length_stamped c ds reservedFree blocksfree hc₀
  have hs : SECTOR_SIZE = 512 := rfl
  have hw := length_words_bytes words
  have hrest : (rootHead c ds reservedFree blocksfree).drop (524 + words.length * 4) =
      c.drop (524 + words.length * 4) := by
    unfold rootHead RB_OFF_DATESTAMP RB_OFF_RESERVED_FREE RB_OFF_BLOCKSFREE
    rw [drop_splice_ge (by simp; omega) (by simp; omega), drop_splice_ge (by simp; omega)
      (by simp; omega), drop_splice_ge (by simp; omega) (by simp; omega)]
  have hdrop : (rootCluster c ds reservedFree blocksfree words).drop (SECTOR_SIZE + 12) =
      (words.flatMap fun l => enc32 l.toNat) ++ (c.drop (SECTOR_SIZE + 12)).drop
        (words.length * 4) := by
    rw [hs, List.drop_drop, ← hrest]
    unfold rootCluster
    rw [hs, drop_splice_lt (by rw [hw, hl]; omega) le_rfl, hw]
    simp
  have hflat : (words.flatMap fun l => enc32 l.toNat) = (words.map BitVec.toNat).flatMap enc32 := by
    rw [List.flatMap_map]
  have hmap : (words.map BitVec.toNat).map (fun v => BitVec.ofNat 32 (v % 2 ^ 32)) = words := by
    rw [List.map_map]
    refine (List.map_congr_left fun l _ => ?_).trans (List.map_id words)
    apply BitVec.eq_of_toNat_eq
    have hlt : l.toNat < 2 ^ 32 := l.isLt
    simp only [Function.comp_apply, BitVec.toNat_ofNat, id_eq]
    omega
  unfold readWords
  rw [hdrop, hflat, beWords_flatMap, beWords_drop, List.map_take, List.map_append, List.map_map,
    List.map_take, List.map_drop, List.take_append]
  have hlen : ((words.map BitVec.toNat).map
      ((BitVec.ofNat 32) ∘ fun v => v % 2 ^ 32)).length = words.length := by simp
  have hmap' : (words.map BitVec.toNat).map ((BitVec.ofNat 32) ∘ fun v => v % 2 ^ 32) = words :=
    hmap
  rw [hlen, hmap', List.take_of_length_le hn, List.drop_take]

end Cluster

/-! ## The root data of a device -/

namespace RootRep

variable {g : Geometry} {dev dev' : Device} {root : Root}

theorem congr (h : RootRep g dev root)
    (hcluster : dev'.bytesAt 2 (2 * g.resbm) = dev.bytesAt 2 (2 * g.resbm))
    (hext : dev'.bytesAt g.rext 2 = dev.bytesAt g.rext 2) : RootRep g dev' root where
  parse := by rw [hcluster]; exact h.parse
  ext := by rw [hext]; exact h.ext
  words := by rw [hcluster]; exact h.words
  resFree := h.resFree

theorem commit (h : RootRep g dev root) {ds reservedFree blocksfree n : ℕ} {resFree : ℕ → Bool}
    (hds : ds < U32) (hres : reservedFree < U32) (hfree : blocksfree < U32)
    (hn : n ≤ 256 * g.resbm - 131) (hcover : g.numreserved ≤ 32 * n)
    (hresFree : ∀ k, resFree k = true → k < g.numreserved)
    (hcluster : dev'.bytesAt 2 (2 * g.resbm) = rootCluster (dev.bytesAt 2 (2 * g.resbm)) ds
      reservedFree blocksfree (BitRun.words resFree 0 n))
    (hext : dev'.bytesAt g.rext 2 = dev.bytesAt g.rext 2) :
    RootRep g dev' ⟨ds, blocksfree, reservedFree, resFree⟩ where
  parse := by
    obtain ⟨rb, hparse, hsmall, hflag, hrext, -, -, -⟩ := h.parse
    have hlen := dev.length_bytesAt 2 (2 * g.resbm)
    have hpos := g.resbm_pos
    have hparse' := @parse_rootCluster _ ds reservedFree blocksfree (BitRun.words resFree 0 n)
      (by omega) (by rw [length_words]; omega) rb hparse
    rw [hcluster]
    refine ⟨_, hparse', ?_, hflag, hrext, Nat.mod_eq_of_lt hds, Nat.mod_eq_of_lt hfree,
      Nat.mod_eq_of_lt hres⟩
    exact ⟨hsmall.large, hsmall.split, hsmall.deldir, hsmall.rbs, hsmall.first, hsmall.last,
      hsmall.cluster, hsmall.disksize, hsmall.bitmapindex, hsmall.indexblocks⟩
  ext := by rw [hext]; exact h.ext
  words := by
    have hlen := dev.length_bytesAt 2 (2 * g.resbm)
    have hpos := g.resbm_pos
    rw [hcluster, readWords_rootCluster (by omega) (by rw [length_words]; omega)
      (by simpa using hn), h.words, length_words]
    refine List.ext_getElem (by simp; omega) fun i hi hi' => ?_
    rw [length_words] at hi'
    rw [List.getElem_append, getElem_words]
    split
    · rw [getElem_words]
    · rename_i hge
      rw [length_words] at hge
      have hzero : ∀ f : ℕ → Bool, (∀ k, f k = true → k < g.numreserved) →
          word f (0 + 32 * i) = 0 := by
        intro f hf
        refine word_eq_zero.mpr fun j _ => ?_
        by_contra hne
        have hlt := hf _ (by simpa using hne)
        omega
      rw [List.getElem_drop, getElem_words, length_words,
        show n + (i - n) = i by omega, hzero _ h.resFree, hzero _ hresFree]
  resFree := hresFree

end RootRep

/-! ## The cluster of a renamed volume -/

/-- The cluster with a new volume name. -/
def namedCluster (c : Bytes) (len : UInt8) (name : Bytes) (ds : ℕ) : Bytes :=
  splice (splice (splice (splice c 0x14 (List.replicate 32 0)) 0x14 [len]) 0x15 name) 8 (enc32 ds)

section Named

variable {c name : Bytes} {len : UInt8} {ds : ℕ}

theorem length_named (hc : 512 ≤ c.length) (hname : name.length ≤ 30) :
    (splice c 0x14 (List.replicate 32 0)).length = c.length ∧
    (splice (splice c 0x14 (List.replicate 32 0)) 0x14 [len]).length = c.length ∧
    (splice (splice (splice c 0x14 (List.replicate 32 0)) 0x14 [len]) 0x15 name).length =
      c.length ∧
    (namedCluster c len name ds).length = c.length := by
  have hl₁ : (splice c 0x14 (List.replicate 32 0)).length = c.length :=
    length_splice (by rw [List.length_replicate]; omega)
  have hl₂ : (splice (splice c 0x14 (List.replicate 32 0)) 0x14 [len]).length = c.length :=
    (length_splice (by rw [List.length_singleton]; omega)).trans hl₁
  have hl₃ : (splice (splice (splice c 0x14 (List.replicate 32 0)) 0x14 [len]) 0x15
      name).length = c.length := (length_splice (by omega)).trans hl₂
  exact ⟨hl₁, hl₂, hl₃, (length_splice (by rw [length_enc32]; omega)).trans hl₃⟩

/-- Renaming the volume touches its name and the datestamp only. -/
theorem window_named (hc : 512 ≤ c.length) (hname : name.length ≤ 30) {i n : ℕ}
    (h₁ : i + n ≤ 8 ∨ 12 ≤ i) (h₂ : i + n ≤ 0x14 ∨ 0x34 ≤ i) :
    Window c (namedCluster c len name ds) i n := by
  obtain ⟨hl₁, hl₂, hl₃, -⟩ := @length_named c name len ds hc hname
  have hzeros : (List.replicate 32 (0 : UInt8)).length = 32 := List.length_replicate
  have hone : [len].length = 1 := List.length_singleton
  have hword : (enc32 ds).length = 4 := length_enc32 ds
  exact ((((Window.refl c i n).splice (by omega) (by omega)).splice (by omega) (by omega)).splice
    (by omega) (by omega)).splice (by omega) (by omega)

theorem drop_named (hc : 512 ≤ c.length) (hname : name.length ≤ 30) {i : ℕ} (hi : 0x34 ≤ i) :
    (namedCluster c len name ds).drop i = c.drop i := by
  obtain ⟨hl₁, hl₂, hl₃, -⟩ := @length_named c name len ds hc hname
  have hzeros : (List.replicate 32 (0 : UInt8)).length = 32 := List.length_replicate
  have hone : [len].length = 1 := List.length_singleton
  have hword : (enc32 ds).length = 4 := length_enc32 ds
  unfold namedCluster
  rw [drop_splice_ge (by omega) (by omega), drop_splice_ge (by omega) (by omega),
    drop_splice_ge (by omega) (by omega), drop_splice_ge (by omega) (by omega)]

/-- Parsing the cluster of a renamed volume. -/
theorem parse_named (hc : 512 ≤ c.length) (hname : name.length ≤ 30) {rb : Rootblock}
    (hrb : Rootblock.parse c = .ok rb) :
    Rootblock.parse (namedCluster c len name ds) =
      .ok { rb with
        datestamp := ds % 2 ^ 32
        diskname := diskName (namedCluster c len name ds) } := by
  obtain ⟨-, -, hl₃, hl⟩ := @length_named c name len ds hc hname
  have hwin : ∀ i n, (i + n ≤ 8 ∨ 12 ≤ i) → (i + n ≤ 0x14 ∨ 0x34 ≤ i) →
      Window c (namedCluster c len name ds) i n := fun i n h₁ h₂ => window_named hc hname h₁ h₂
  have hstamp : be32 (namedCluster c len name ds) RB_OFF_DATESTAMP = ds % 2 ^ 32 :=
    be32_splice_self (by omega)
  have hres : be32 (namedCluster c len name ds) RB_OFF_RESERVED_FREE =
      be32 c RB_OFF_RESERVED_FREE :=
    (hwin 0x3C 4 (by omega) (by omega)).be32 (j := RB_OFF_RESERVED_FREE)
      (by simp only [RB_OFF_RESERVED_FREE]; omega) (by simp only [RB_OFF_RESERVED_FREE]; omega)
  have hfree : be32 (namedCluster c len name ds) RB_OFF_BLOCKSFREE = be32 c RB_OFF_BLOCKSFREE :=
    (hwin 0x44 4 (by omega) (by omega)).be32 (j := RB_OFF_BLOCKSFREE)
      (by simp only [RB_OFF_BLOCKSFREE]; omega) (by simp only [RB_OFF_BLOCKSFREE]; omega)
  obtain ⟨hr, hf⟩ : be32 c RB_OFF_RESERVED_FREE = rb.reservedFree ∧
      be32 c RB_OFF_BLOCKSFREE = rb.blocksfree := parse_counters hrb
  rw [parse_window (by omega) (by omega) (hwin 0 8 (by omega) (by omega))
    (hwin 0x34 8 (by omega) (by omega)) (hwin 0x40 4 (by omega) (by omega))
    (hwin 0x48 440 (by omega) (by omega)), hrb, hstamp, hres, hfree, hr, hf]
  rfl

theorem RootRep.named {g : Geometry} {dev dev' : Device} {root : Root} (h : RootRep g dev root)
    (hds : ds < U32) (hname : name.length ≤ 30)
    (hcluster : dev'.bytesAt 2 (2 * g.resbm) =
      namedCluster (dev.bytesAt 2 (2 * g.resbm)) len name ds)
    (hext : dev'.bytesAt g.rext 2 = dev.bytesAt g.rext 2) :
    RootRep g dev' { root with datestamp := ds } := by
  have hlen := dev.length_bytesAt 2 (2 * g.resbm)
  have hpos := g.resbm_pos
  have hs : SECTOR_SIZE = 512 := rfl
  obtain ⟨rb, hparse, hsmall, hflag, hrext, -, hbf, hrf⟩ := h.parse
  have hparse' := @parse_named _ name len ds (by omega) hname rb hparse
  have hdrop := @drop_named (dev.bytesAt 2 (2 * g.resbm)) name len ds (by omega) hname
    (SECTOR_SIZE + 12) (by omega)
  refine ⟨?_, by rw [hext]; exact h.ext, ?_, h.resFree⟩
  · rw [hcluster]
    refine ⟨_, hparse', ?_, hflag, hrext, Nat.mod_eq_of_lt hds, hbf, hrf⟩
    exact ⟨hsmall.large, hsmall.split, hsmall.deldir, hsmall.rbs, hsmall.first, hsmall.last,
      hsmall.cluster, hsmall.disksize, hsmall.bitmapindex, hsmall.indexblocks⟩
  · rw [hcluster, readWords, hdrop]
    exact h.words

end Named

/-! ## Commit -/

/-- A write to the data area leaves the reserved blocks alone. -/
theorem Device.bytesAt_put_data (d : Device) {g : Geometry} {b k : ℕ} (hb : g.dataStart ≤ b)
    (s : Sector) (hk : g.IsReserved k) : (d.put b s).bytesAt k 2 = d.bytesAt k 2 := by
  have hadd := hk.add_two_le
  exact Device.bytesAt_congr fun i _ hi => Function.update_of_ne (by omega) _ _

/-- Another device that holds the same reserved blocks and the same data area. -/
theorem VolRep.congrDev {v : Volume} {g : Geometry} {m : Meta} {data data' : ℕ → Sector}
    (h : VolRep v g m data) {d : Device} (htotal : d.total = v.dev.total)
    (hread : ∀ k, g.IsReserved k → d.bytesAt k 2 = v.dev.bytesAt k 2)
    (hdata : ∀ b, g.dataStart ≤ b → b < g.disksize → d.sectors b = data' b) :
    VolRep { v with dev := d } g m data' :=
  { h with
    cache := by
      refine h.cache.congr fun k hk => ?_
      have hd : g.disksize ≤ d.total := htotal.symm ▸ h.total
      have hput : d.readReserved 1024 k = .ok (d.bytesAt k 2) := Device.readReserved_ok hd hk
      rw [hput, Device.readReserved_ok h.total hk, hread k hk]
    content := h.content.congr h.wf hread
    data := hdata
    total := htotal.symm ▸ h.total }

theorem VolRep.putData {v : Volume} {g : Geometry} {m : Meta} {data : ℕ → Sector}
    (h : VolRep v g m data) {b : ℕ} (hb : g.dataStart ≤ b) (s : Sector) :
    VolRep { v with dev := v.dev.put b s } g m (Function.update data b s) := by
  refine h.congrDev rfl (fun k hk => v.dev.bytesAt_put_data hb s hk) fun k hk hk' => ?_
  by_cases hkb : k = b
  · subst hkb
    rw [Function.update_self]
    exact Function.update_self k s v.dev.sectors
  · rw [Function.update_of_ne hkb]
    exact (Function.update_of_ne hkb _ _).trans (h.data k hk hk')

theorem Geometry.IsQueued.ne_rext {g : Geometry} {b : ℕ} (h : g.IsQueued b) :
    b ≠ g.rext := by
  rcases h with h | rfl | ⟨i, -, rfl⟩
  · exact h.ne_rext
  · simp only [Geometry.anidx, Geometry.rext, Geometry.blockAt]
    omega
  · simp only [Geometry.bm, Geometry.rext, Geometry.blockAt]
    omega

namespace Rep

variable {g : Geometry} {w : Writer} {S : Store}

theorem sound (h : Rep g w S) : w.vol.dev.Sound := ⟨h.writable, h.faults⟩

/-- Writing the queue. -/
theorem flushPending (h : Rep g w S) :
    ∃ w', Writer.flushPending w = .ok () w' ∧ Rep g w' (Store.flush S) := by
  have hqueue : ∀ p ∈ w.pendingWrites, S.geo.IsReserved p.1 ∧ p.2.length = 1024 :=
    fun p hp => ⟨(h.queue p.1 p.2 hp).1.isReserved, (h.queue p.1 p.2 hp).2⟩
  have htotal := h.vol.total
  have hlt := S.geo.dataStart_lt
  have hrun := @flushWrites_ok w.pendingWrites { w with pendingWrites := [] } h.sound
    (fun p hp => by
      have hadd := (hqueue p hp).1.add_two_le
      show p.1 + 1 < w.vol.dev.total
      omega) h.rescluster
  have hblocks : ∀ b, S.geo.IsReserved b →
      (w.vol.dev.putMany w.pendingWrites).bytesAt b 2 = w.overlay b := fun b hb =>
    Device.bytesAt_putMany hb _ hqueue h.queue_nodup
  have hsectors : ∀ i, (i < 2 + 2 * S.geo.resbm ∨ S.geo.dataStart ≤ i) →
      (w.vol.dev.putMany w.pendingWrites).sectors i = w.vol.dev.sectors i := by
    intro i hi
    refine Device.sectors_putMany fun p hp => ?_
    have hadd := (hqueue p hp).1.add_two_le
    obtain ⟨k, hk, -, hpk⟩ := (hqueue p hp).1
    simp only [Geometry.blockAt] at hpk
    omega
  have htotal' := Device.total_putMany w.pendingWrites w.vol.dev
  have hsound := Device.sound_putMany w.pendingWrites h.sound
  have hcontent : Represents S.geo (fun b => (w.vol.dev.putMany w.pendingWrites).bytesAt b 2)
      S.live := h.live.congr h.liveWf hblocks
  refine ⟨Writer.setVol (w.vol.flushed w.pendingWrites) { w with pendingWrites := [] }, ?_, ?_⟩
  · unfold Writer.flushPending
    rw [bind_of_ok (rfl : (get : WriterM Writer) w = .ok w w), bind_of_ok (rfl : (set
      ({ w with pendingWrites := [] } : Writer) : WriterM Unit) w = .ok () _), bind_of_ok hrun]
    rfl
  · exact
      { h with
        vol :=
          { h.vol with
            cache := by
              refine coherent_flushed w.pendingWrites h.vol.cache fun k hk hne => ?_
              have hread : (w.vol.dev.putMany w.pendingWrites).readReserved 1024 k =
                  .ok ((w.vol.dev.putMany w.pendingWrites).bytesAt k 2) :=
                Device.readReserved_ok (htotal'.symm ▸ htotal) hk
              rw [Device.readReserved_ok htotal hk]
              refine hread.trans (congrArg _ (Device.bytesAt_congr fun i hi hi' => ?_))
              refine Device.sectors_putMany fun p hp => ?_
              obtain ⟨h₁, h₂⟩ := (hqueue p hp).1.disjoint hk (hne p hp)
              have h₃ := hne p hp
              omega
            content := hcontent
            wf := h.liveWf
            data := fun b hb hb' => (hsectors b (Or.inr hb)).trans (h.vol.data b hb hb')
            total := htotal'.symm ▸ htotal }
        queue_nodup := List.nodup_nil
        queue := fun b d hmem => absurd hmem List.not_mem_nil
        live := hcontent
        index := fun _ _ => rfl
        root := by
          refine h.root.congr ?_ ?_
          · exact Device.bytesAt_congr fun i _ hi => hsectors i (Or.inl hi)
          · refine Device.bytesAt_congr fun i hi hi' => Device.sectors_putMany fun p hp => ?_
            have hq := (h.queue p.1 p.2 hp).1
            obtain ⟨h₁, h₂⟩ := S.geo.rext_isReserved.disjoint hq.isReserved hq.ne_rext
            have h₃ := hq.ne_rext
            omega
        writable := hsound.writable
        faults := hsound.faults }

/-- The words of the reserved bitmap that a commit writes are all of them. -/
theorem take_resBitmap (h : Rep g w S) :
    w.resBitmap.take ((2 * S.geo.resbm * 512 - (SECTOR_SIZE + 12)) / 4) =
      BitRun.words S.resFree 0 w.resBitmap.length := by
  have hlen := h.resBitmap_bounds.2
  have hs : SECTOR_SIZE = 512 := rfl
  rw [List.take_of_length_le (by omega)]
  exact h.resBitmap

theorem onDev_flush {w : Writer} : Writer.onDev Device.flush w = .ok () w := rfl

/-- One step of the datestamp, with the states it leads to. -/
theorem nextDatestamp_run (h : Rep g w S) :
    (Writer.nextDatestamp w = .error .panic w ∧ Store.nextDatestamp S = .error (.raise .panic) S) ∨
    (Writer.nextDatestamp w = .ok (S.datestamp + 1) { w with datestamp := S.datestamp + 1 } ∧
      Store.nextDatestamp S = .ok (S.datestamp + 1) { S with datestamp := S.datestamp + 1 } ∧
      S.datestamp + 1 < U32 ∧
      Rep g { w with datestamp := S.datestamp + 1 } { S with datestamp := S.datestamp + 1 }) := by
  unfold Writer.nextDatestamp Store.nextDatestamp
  rw [bind_of_ok (rfl : (get : WriterM Writer) w = .ok w w),
    bind_of_ok (rfl : (get : StoreM Store) S = .ok S S), h.datestamp]
  by_cases hlt : S.datestamp + 1 < U32
  · have hadd : addU32 S.datestamp 1 = .ok (S.datestamp + 1) := if_pos hlt
    rw [hadd]
    exact Or.inr ⟨rfl, rfl, hlt, { h with datestamp := rfl, datestamp_lt := hlt }⟩
  · have hadd : addU32 S.datestamp 1 = .error .panic := if_neg hlt
    rw [hadd]
    exact Or.inl ⟨rfl, rfl⟩

/-- Writing the rootblock cluster. -/
theorem writeCluster (h : Rep g w S) {ds : ℕ} (hds : ds < U32) :
    Sim (Rep g) Eq
      (do
        let cluster ← putU32 (w.vol.dev.bytesAt 2 (2 * S.geo.resbm)) RB_OFF_DATESTAMP ds
        let cluster ← putU32 cluster RB_OFF_RESERVED_FREE w.vol.rootblock.reservedFree
        let cluster ← putU32 cluster RB_OFF_BLOCKSFREE w.vol.rootblock.blocksfree
        let bmOff := SECTOR_SIZE + 12
        let words := w.resBitmap.take ((cluster.length - bmOff) / 4)
        let cluster := splice cluster bmOff (words.flatMap fun l => enc32 l.toNat)
        Writer.onDev (Device.writeBlocks w.firstreserved w.vol.rootblock.rblkcluster cluster)
        Writer.onDev Device.flush : WriterM Unit)
      (modify fun S => { S with root := ⟨ds, S.blocksfree, S.reservedFree, S.resFree⟩ } :
        StoreM Unit) w S := by
  have hs : SECTOR_SIZE = 512 := rfl
  have hle := S.geo.cluster_le
  have hlt := S.geo.dataStart_lt
  have htotal := h.vol.total
  have hpos := S.geo.resbm_pos
  have hlen := w.vol.dev.length_bytesAt 2 (2 * S.geo.resbm)
  obtain ⟨hl₁, hl₂, hl₃⟩ := @length_stamped (w.vol.dev.bytesAt 2 (2 * S.geo.resbm)) ds
    S.reservedFree S.blocksfree (by omega)
  have hput₁ : putU32 (w.vol.dev.bytesAt 2 (2 * S.geo.resbm)) RB_OFF_DATESTAMP ds =
      .ok (splice (w.vol.dev.bytesAt 2 (2 * S.geo.resbm)) 8 (enc32 ds)) :=
    putU32_ok (by simp only [RB_OFF_DATESTAMP]; omega)
  have hput₂ : putU32 (splice (w.vol.dev.bytesAt 2 (2 * S.geo.resbm)) 8 (enc32 ds))
      RB_OFF_RESERVED_FREE S.reservedFree = .ok (splice (splice (w.vol.dev.bytesAt 2
        (2 * S.geo.resbm)) 8 (enc32 ds)) 0x3C (enc32 S.reservedFree)) :=
    putU32_ok (by rw [hl₁]; simp only [RB_OFF_RESERVED_FREE]; omega)
  have hput₃ : putU32 (splice (splice (w.vol.dev.bytesAt 2 (2 * S.geo.resbm)) 8 (enc32 ds)) 0x3C
      (enc32 S.reservedFree)) RB_OFF_BLOCKSFREE S.blocksfree =
      .ok (rootHead (w.vol.dev.bytesAt 2 (2 * S.geo.resbm)) ds S.reservedFree S.blocksfree) :=
    putU32_ok (by rw [hl₂]; simp only [RB_OFF_BLOCKSFREE]; omega)
  refine sim_lift_ok hput₁ ?_
  rw [h.reservedFree]
  refine sim_lift_ok hput₂ ?_
  rw [h.blocksfree]
  refine sim_lift_ok hput₃ ?_
  have hwlen := h.resBitmap_bounds
  have hnew := @length_rootCluster (w.vol.dev.bytesAt 2 (2 * S.geo.resbm)) ds S.reservedFree
    S.blocksfree (BitRun.words S.resFree 0 w.resBitmap.length) (by omega)
    (by rw [length_words]; omega)
  obtain ⟨d', hwrite, hsound, htotal', hout, hbytes⟩ := Device.writeBlocks_ok (b := 2) h.sound
    (by omega) (hnew.trans hlen)
  have hext : d'.bytesAt S.geo.rext 2 = w.vol.dev.bytesAt S.geo.rext 2 := by
    refine Device.bytesAt_congr fun i hi _ => hout i (Or.inr ?_)
    simp only [Geometry.rext, Geometry.blockAt] at hi
    omega
  have hread : ∀ k, S.geo.IsReserved k → d'.bytesAt k 2 = w.vol.dev.bytesAt k 2 := by
    rintro _ ⟨k, hk, -, rfl⟩
    refine Device.bytesAt_congr fun i hi _ => hout i (Or.inr ?_)
    simp only [Geometry.blockAt] at hi
    omega
  rw [hl₃, hlen]
  have hwords := h.take_resBitmap
  have hcluster : splice (rootHead (w.vol.dev.bytesAt 2 (2 * S.geo.resbm)) ds S.reservedFree
      S.blocksfree) (SECTOR_SIZE + 12) ((w.resBitmap.take ((2 * S.geo.resbm * 512 -
        (SECTOR_SIZE + 12)) / 4)).flatMap fun l => enc32 l.toNat) =
      rootCluster (w.vol.dev.bytesAt 2 (2 * S.geo.resbm)) ds S.reservedFree S.blocksfree
        (BitRun.words S.resFree 0 w.resBitmap.length) := by
    rw [hwords]
    rfl
  refine sim_left (Writer.onDev_ok (a := ()) (d := d') ?_) (sim_of_ok onDev_flush rfl rfl ?_)
  · rw [h.firstreserved, h.vol.rb.cluster]
    exact (congrArg (fun c => Device.writeBlocks 2 (2 * S.geo.resbm) c w.vol.dev) hcluster).trans
      hwrite
  · exact
      { h with
        vol := h.vol.congrDev htotal' hread fun i hi hi' =>
          (hout i (Or.inr (by omega))).trans (h.vol.data i hi hi')
        live := by
          refine h.live.congr h.liveWf fun k hk => ?_
          exact congrArg _ (hread k hk)
        root := h.root.commit hds h.reservedFree_lt h.blocksfree_lt hwlen.2 hwlen.1 h.resFree
          hbytes hext
        writable := hsound.writable
        faults := hsound.faults }

theorem updateRootblock (h : Rep g w S) :
    Sim (Rep g) Eq Writer.updateRootblock Store.updateRootblock w S := by
  obtain ⟨w, hrun, h⟩ := h.flushPending
  refine sim_left hrun (sim_right (rfl : (modify Store.flush : StoreM Unit) S = .ok () _) ?_)
  generalize Store.flush S = S at h
  have hs : SECTOR_SIZE = 512 := rfl
  have hle := S.geo.cluster_le
  have hlt := S.geo.dataStart_lt
  have htotal := h.vol.total
  have hread : w.vol.dev.readBlocks w.firstreserved w.vol.rootblock.rblkcluster
      (w.vol.rootblock.rblkcluster * SECTOR_SIZE) =
      .ok (w.vol.dev.bytesAt 2 (2 * S.geo.resbm)) := by
    rw [h.firstreserved, h.vol.rb.cluster, hs]
    exact Device.readBlocks_ok (by omega)
  refine sim_get_left (sim_lift_ok hread ?_)
  rcases h.nextDatestamp_run with ⟨hw, hS⟩ | ⟨hw, hS, hds, h⟩
  · exact sim_of_raise (bind_of_error hw) (bind_of_error hS) h
  · exact sim_left hw (sim_right hS (h.writeCluster hds))

/-! ## The volume name -/

/-- The volume's name in memory stands for nothing in the store. -/
theorem withName (h : Rep g w S) (diskname : Name) :
    Rep g { w with vol.rootblock.diskname := diskname } S :=
  { h with
    vol :=
      { h.vol with
        rb := ⟨h.vol.rb.large, h.vol.rb.split, h.vol.rb.deldir, h.vol.rb.rbs, h.vol.rb.first,
          h.vol.rb.last, h.vol.rb.cluster, h.vol.rb.disksize, h.vol.rb.bitmapindex,
          h.vol.rb.indexblocks⟩
        anodes := h.vol.anodes
        bitmap := h.vol.bitmap } }

/-- Writing the cluster of a renamed volume. -/
theorem writeNamed (h : Rep g w S) {ds : ℕ} (hds : ds < U32) (len : UInt8) {name : Bytes}
    (hname : name.length ≤ 30) :
    Sim (Rep g) Eq
      (do
        Writer.onDev (Device.writeBlocks w.firstreserved w.vol.rootblock.rblkcluster
          (namedCluster (w.vol.dev.bytesAt 2 (2 * S.geo.resbm)) len name ds))
        Writer.onDev Device.flush : WriterM Unit)
      (modify fun S => { S with root.datestamp := ds } : StoreM Unit) w S := by
  have hle := S.geo.cluster_le
  have hlt := S.geo.dataStart_lt
  have htotal := h.vol.total
  have hpos := S.geo.resbm_pos
  have hlen := w.vol.dev.length_bytesAt 2 (2 * S.geo.resbm)
  obtain ⟨-, -, -, hl⟩ := @length_named (w.vol.dev.bytesAt 2 (2 * S.geo.resbm)) name len ds
    (by omega) hname
  obtain ⟨d', hwrite, hsound, htotal', hout, hbytes⟩ := Device.writeBlocks_ok (b := 2) h.sound
    (by omega) (hl.trans hlen)
  have hext : d'.bytesAt S.geo.rext 2 = w.vol.dev.bytesAt S.geo.rext 2 := by
    refine Device.bytesAt_congr fun i hi _ => hout i (Or.inr ?_)
    simp only [Geometry.rext, Geometry.blockAt] at hi
    omega
  have hread : ∀ k, S.geo.IsReserved k → d'.bytesAt k 2 = w.vol.dev.bytesAt k 2 := by
    rintro _ ⟨k, hk, -, rfl⟩
    refine Device.bytesAt_congr fun i hi _ => hout i (Or.inr ?_)
    simp only [Geometry.blockAt] at hi
    omega
  refine sim_left (Writer.onDev_ok (a := ()) (d := d') ?_) (sim_of_ok onDev_flush rfl rfl ?_)
  · rw [h.firstreserved, h.vol.rb.cluster]
    exact hwrite
  · exact
      { h with
        vol := h.vol.congrDev htotal' hread fun i hi hi' =>
          (hout i (Or.inr (by omega))).trans (h.vol.data i hi hi')
        live := by
          refine h.live.congr h.liveWf fun k hk => ?_
          exact congrArg _ (hread k hk)
        root := h.root.named hds hname hbytes hext
        writable := hsound.writable
        faults := hsound.faults }

theorem setVolumeName (h : Rep g w S) (name : Name) :
    Sim (Rep g) Eq (Writer.setVolumeName name) (Store.setVolumeName name) w S := by
  have hs : SECTOR_SIZE = 512 := rfl
  have hname₀ : RB_OFF_DISKNAME = 0x14 := rfl
  have hstamp : RB_OFF_DATESTAMP = 8 := rfl
  have hle := S.geo.cluster_le
  have hlt := S.geo.dataStart_lt
  have hpos := S.geo.resbm_pos
  unfold Writer.setVolumeName Store.setVolumeName
  dsimp only
  cases hname : Writer.slicePrefix (min (asBytes name).length 30) name with
  | error f => exact sim_throw h
  | ok diskname =>
      have hlen30 : ((asBytes name).take (min (asBytes name).length 30)).length ≤ 30 :=
        (List.length_take_le _ _).trans (Nat.min_le_right _ _)
      generalize UInt8.ofNat (min (asBytes name).length 30) = len
      generalize (asBytes name).take (min (asBytes name).length 30) = bytes at hlen30 ⊢
      have h := h.withName diskname
      refine sim_left (rfl : (pure diskname : WriterM Name) w = .ok _ _) ?_
      refine sim_right (rfl : (pure diskname : StoreM Name) S = .ok _ _) ?_
      have hmodify : (modify fun w => { w with vol.rootblock.diskname := diskname } :
          WriterM Unit) w = .ok () { w with vol.rootblock.diskname := diskname } := rfl
      refine sim_left hmodify (sim_get_left ?_)
      generalize ({ w with vol.rootblock.diskname := diskname } : Writer) = w at h ⊢
      have hlen := w.vol.dev.length_bytesAt 2 (2 * S.geo.resbm)
      obtain ⟨hl₁, hl₂, hl₃, -⟩ := @length_named (w.vol.dev.bytesAt 2 (2 * S.geo.resbm)) bytes
        len 0 (by omega) hlen30
      have hread : w.vol.dev.readBlocks w.firstreserved w.vol.rootblock.rblkcluster
          (w.vol.rootblock.rblkcluster * SECTOR_SIZE) =
          .ok (w.vol.dev.bytesAt 2 (2 * S.geo.resbm)) := by
        rw [h.firstreserved, h.vol.rb.cluster, hs]
        exact Device.readBlocks_ok (by have ht := h.vol.total; omega)
      have hput₁ : putBytes (w.vol.dev.bytesAt 2 (2 * S.geo.resbm)) RB_OFF_DISKNAME
          (List.replicate 32 0) = .ok (splice (w.vol.dev.bytesAt 2 (2 * S.geo.resbm)) 0x14
            (List.replicate 32 0)) :=
        putBytes_ok (by rw [List.length_replicate]; omega)
      have hput₂ : putBytes (splice (w.vol.dev.bytesAt 2 (2 * S.geo.resbm)) 0x14
          (List.replicate 32 0)) RB_OFF_DISKNAME [len] = .ok (splice (splice (w.vol.dev.bytesAt 2
            (2 * S.geo.resbm)) 0x14 (List.replicate 32 0)) 0x14 [len]) :=
        putBytes_ok (by rw [List.length_singleton]; omega)
      have hput₃ : putBytes (splice (splice (w.vol.dev.bytesAt 2 (2 * S.geo.resbm)) 0x14
          (List.replicate 32 0)) 0x14 [len]) (RB_OFF_DISKNAME + 1) bytes = .ok (splice (splice
            (splice (w.vol.dev.bytesAt 2 (2 * S.geo.resbm)) 0x14 (List.replicate 32 0)) 0x14
              [len]) 0x15 bytes) :=
        putBytes_ok (by omega)
      refine sim_lift_ok hread (sim_lift_ok hput₁ (sim_lift_ok hput₂ (sim_lift_ok hput₃ ?_)))
      rcases h.nextDatestamp_run with ⟨hw, hS⟩ | ⟨hw, hS, hds, h⟩
      · exact sim_of_raise (bind_of_error hw) (bind_of_error hS) h
      · have hput₄ := @putU32_ok (splice (splice (splice (w.vol.dev.bytesAt 2 (2 * S.geo.resbm))
          0x14 (List.replicate 32 0)) 0x14 [len]) 0x15 bytes) RB_OFF_DATESTAMP (S.datestamp + 1)
          (by omega)
        exact sim_left hw (sim_right hS (sim_lift_ok hput₄ (h.writeNamed hds len hlen30)))

/-! ## Data blocks -/

/-- Writing a sector of the data area. -/
theorem dataSector (h : Rep g w S) {b : ℕ} (hb : S.geo.dataStart ≤ b) (s : Sector) :
    Rep g { w with vol.dev := w.vol.dev.put b s } { S with data := Function.update S.data b s } := by
  have hread := fun k hk => w.vol.dev.bytesAt_put_data (k := k) hb s hk
  have hle := S.geo.cluster_le
  exact
    { h with
      vol := h.vol.putData hb s
      live := by
        refine h.live.congr h.liveWf fun k hk => ?_
        have hover : ∀ w : Writer, w.overlay k =
            (w.pendingWrites.lookup k).getD (w.vol.dev.bytesAt k 2) := fun _ => rfl
        rw [hover, hover]
        exact congrArg _ (hread k hk)
      root := by
        refine h.root.congr ?_ (hread _ S.geo.rext_isReserved)
        exact Device.bytesAt_congr fun i _ hi => Function.update_of_ne (by omega) _ _ }

theorem writeDataBlocks (blocks : List ℕ) : ∀ (data : Bytes) {w : Writer} {S : Store}, Rep g w S →
    Sim (Rep g) Eq (Writer.writeDataBlocks blocks data) (Store.writeDataBlocks blocks data)
      w S := by
  induction blocks with
  | nil => intro data w S h; exact sim_pure rfl h
  | cons b rest ih =>
      intro data w S h
      unfold Writer.writeDataBlocks Store.writeDataBlocks
      refine sim_get_right ?_
      by_cases hout : b < S.geo.dataStart ∨ S.geo.disksize ≤ b
      · rw [if_pos hout]
        exact sim_stuck
      · rw [if_neg hout]
        have htotal := h.vol.total
        refine sim_left (Writer.onDev_ok (Device.writeBlock_ok h.sound (by omega) (.ofBytes data)))
          (sim_set_right ?_)
        refine ih _ ?_
        have hdata := h.dataSector (b := b) (by omega) (.ofBytes data)
        exact hdata

end Rep

end Pfs3
