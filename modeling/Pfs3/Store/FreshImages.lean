import Mathlib.Data.List.GetD
import Pfs3.Store.FormatRun
import Pfs3.Store.Root

/-!
# Images of a fresh volume

What the formatter's field writes leave in a zeroed block: for the blocks of the reserved area
the image of the structured store, for the rootblock cluster and the extension the fields that
a volume reads.
-/

namespace Pfs3

open ByteList Stop

namespace Format

/-! ## Field writes -/

/-- The fields lie one behind the other, from `k` on, in a block of `size` bytes. -/
def Ascending (size : ℕ) : (k : ℕ) → List (ℕ × Bytes) → Prop
  | k, [] => k ≤ size
  | k, (off, src) :: rest => k ≤ off ∧ Ascending size (off + src.length) rest

theorem Ascending.le {size k : ℕ} {fields : List (ℕ × Bytes)} (h : Ascending size k fields) :
    k ≤ size := by
  induction fields generalizing k with
  | nil => exact h
  | cons p rest ih =>
      have hrest := ih h.2
      have hk := h.1
      omega

/-- The bytes of ascending fields behind `p`, with zeros between them. -/
def fill (p : Bytes) : List (ℕ × Bytes) → Bytes
  | [] => p
  | (off, src) :: rest => fill (p ++ List.replicate (off - p.length) 0 ++ src) rest

theorem splice_zeros (p x : Bytes) {n : ℕ} (h : x.length ≤ n) :
    splice (p ++ List.replicate n 0) p.length x = p ++ x ++ List.replicate (n - x.length) 0 := by
  have hn : List.replicate n (0 : UInt8) =
      List.replicate x.length 0 ++ List.replicate (n - x.length) 0 := by
    rw [List.replicate_append_replicate]
    congr 1
    omega
  rw [hn, ← List.append_assoc]
  exact splice_part (by rw [List.length_replicate])

/-- Field writes into a zeroed block. -/
theorem putAll_fill {size : ℕ} {fields : List (ℕ × Bytes)} : ∀ {p : Bytes},
    Ascending size p.length fields →
    ∃ n, putAll fields (p ++ List.replicate (size - p.length) 0) =
      .ok (fill p fields ++ List.replicate n 0) ∧ (fill p fields).length + n = size := by
  induction fields with
  | nil =>
      intro p h
      have hle : p.length ≤ size := h
      exact ⟨_, rfl, by rw [fill]; omega⟩
  | cons f rest ih =>
      intro p h
      obtain ⟨off, src⟩ := f
      obtain ⟨hoff, hrest⟩ := h
      have hle := hrest.le
      have hlen : (p ++ List.replicate (off - p.length) 0).length = off := by
        rw [List.length_append, List.length_replicate]
        omega
      have hlen' : (p ++ List.replicate (off - p.length) 0 ++ src).length = off + src.length := by
        rw [List.length_append, hlen]
      have hzeros : p ++ List.replicate (size - p.length) (0 : UInt8) =
          p ++ List.replicate (off - p.length) 0 ++ List.replicate (size - off) 0 := by
        rw [List.append_assoc, List.replicate_append_replicate]
        congr 2
        omega
      have hput : putBytes (p ++ List.replicate (size - p.length) 0) off src =
          .ok (p ++ List.replicate (off - p.length) 0 ++ src ++
            List.replicate (size - (off + src.length)) 0) := by
        have hs := splice_zeros (p ++ List.replicate (off - p.length) 0) src
          (n := size - off) (by omega)
        rw [hlen] at hs
        rw [hzeros, putBytes_ok, hs]
        · congr 3
          omega
        · rw [List.length_append, hlen, List.length_replicate]
          omega
      obtain ⟨n, hok, hn⟩ := @ih (p ++ List.replicate (off - p.length) 0 ++ src)
        (by rw [hlen']; exact hrest)
      rw [hlen'] at hok
      refine ⟨n, ?_, hn⟩
      rw [putAll, hput, ok_bind]
      exact hok

theorem IsImage.eq_fill {size : ℕ} {fields : List (ℕ × Bytes)} {img : Bytes}
    (h : IsImage fields size img) (hasc : Ascending size 0 fields) :
    ∃ n, img = fill [] fields ++ List.replicate n 0 ∧ (fill [] fields).length + n = size := by
  obtain ⟨n, hok, hn⟩ := @putAll_fill size fields [] hasc
  have heq : putAll fields (List.replicate size 0) = .ok img := h
  rw [List.nil_append] at hok
  rw [List.length_nil, Nat.sub_zero] at hok
  rw [hok] at heq
  cases heq
  exact ⟨n, rfl, hn⟩

/-- Bytes that no field covers. -/
theorem putAll_frame {fields : List (ℕ × Bytes)} {i n : ℕ} : ∀ {d d' : Bytes},
    putAll fields d = .ok d' → (∀ p ∈ fields, i + n ≤ p.1 ∨ p.1 + p.2.length ≤ i) →
    Window d d' i n := by
  induction fields with
  | nil =>
      intro d d' h _
      cases h
      exact .refl d i n
  | cons p fields ih =>
      intro d d' h hout
      obtain ⟨d₁, hput, hrest⟩ := of_bind_ok h
      have hwin := ih hrest fun q hq => hout q (List.mem_cons_of_mem p hq)
      unfold putBytes at hput
      split at hput
      · rename_i hle
        cases hput
        exact hwin.trans (take_drop_splice hle (hout p List.mem_cons_self))
      · cases hput

/-- A field of an image, read back. -/
theorem IsImage.field {size o : ℕ} {src img : Bytes} {l₁ l₂ : List (ℕ × Bytes)}
    (h : IsImage (l₁ ++ (o, src) :: l₂) size img)
    (hout : ∀ p ∈ l₂, o + src.length ≤ p.1 ∨ p.1 + p.2.length ≤ o) :
    (img.drop o).take src.length = src := by
  have hsplit : ∀ (l : List (ℕ × Bytes)) {d d' : Bytes}, putAll (l ++ (o, src) :: l₂) d = .ok d' →
      ∃ d₁, putAll ((o, src) :: l₂) d₁ = .ok d' := by
    intro l
    induction l with
    | nil => exact fun h => ⟨_, h⟩
    | cons p l ih =>
        intro d d' h
        obtain ⟨d₁, -, hrest⟩ := of_bind_ok h
        exact ih hrest
  obtain ⟨d₁, h₁⟩ := hsplit l₁ h
  obtain ⟨d₂, hput, hrest⟩ := of_bind_ok h₁
  have hwin := putAll_frame hrest hout
  unfold putBytes at hput
  split at hput
  · rename_i hle
    cases hput
    exact hwin.trans (take_drop_splice_self hle)
  · cases hput

/-- Zeros where no field was written. -/
theorem IsImage.gap {size i n : ℕ} {fields : List (ℕ × Bytes)} {img : Bytes}
    (h : IsImage fields size img)
    (hout : ∀ p ∈ fields, i + n ≤ p.1 ∨ p.1 + p.2.length ≤ i) (hn : i + n ≤ size) :
    (img.drop i).take n = List.replicate n 0 := by
  have hwin : (img.drop i).take n = ((List.replicate size (0 : UInt8)).drop i).take n :=
    putAll_frame h hout
  rw [hwin, List.drop_replicate, List.take_replicate]
  congr 1
  omega

/-! ## Blocks of the reserved area -/

/-- Records that are all zero. -/
theorem flatMap_zeros {f : ℕ → Bytes} {w : ℕ} (k m : ℕ)
    (h : ∀ j, k ≤ j → j < k + m → f j = List.replicate w 0) :
    (List.range' k m).flatMap f = List.replicate (m * w) 0 := by
  induction m generalizing k with
  | zero => simp
  | succ m ih =>
      rw [List.range'_succ, List.flatMap_cons, h k le_rfl (by omega),
        ih (k + 1) fun j hj hj' => h j (by omega) (by omega), List.replicate_append_replicate]
      congr 1
      ring

/-- The anode index of a fresh volume. -/
def freshIndex (anodeBlk i : ℕ) : ℕ := if i = 0 then anodeBlk else 0

/-- The anodes of a fresh volume: the root directory's. -/
def freshSlot (rootdirBlk nr : ℕ) : Slot :=
  if nr = ANODE_ROOTDIR then .ofNat 1 rootdirBlk 0 else .empty

/-- The directory blocks of a fresh volume: the empty root directory. -/
def freshDir (rootdirBlk blk : ℕ) : Option DirBlock :=
  if blk = rootdirBlk then some ⟨ANODE_ROOTDIR, ANODE_ROOTDIR, []⟩ else none

theorem replicate_eq_of_length {a : Bytes} {n m : ℕ} (h : a.length + n = a.length + m) :
    a ++ List.replicate n (0 : UInt8) = a ++ List.replicate m 0 := by
  have hn : n = m := by omega
  rw [hn]

theorem anidx_image {l : Layout} {img : Bytes} (h : IsImage (anidxFields l) 1024 img) :
    img = indexImage 1 (freshIndex l.anodeBlk) := by
  obtain ⟨n, rfl, hn⟩ := h.eq_fill (by simp [anidxFields, Ascending])
  have hrest := flatMap_zeros (f := fun i => enc32 (freshIndex l.anodeBlk i)) (w := 4) 1 252
    fun j hj _ => by
      have hne : freshIndex l.anodeBlk j = 0 := if_neg (by omega)
      rw [hne]
      rfl
  have hfill : fill [] (anidxFields l) = header IBLKID 1 ++ enc32 0 ++ enc32 l.anodeBlk := rfl
  have hlen : (fill [] (anidxFields l)).length = 16 := rfl
  have hrange : List.range 253 = 0 :: List.range' 1 252 := by
    rw [List.range_eq_range']
    rfl
  rw [indexImage, hrange, List.flatMap_cons, hrest, hfill, ← List.append_assoc]
  exact replicate_eq_of_length (by omega)

theorem anode_image {l : Layout} {img : Bytes} (h : IsImage (anodeFields l) 1024 img) :
    img = anodeImage 1 0 (freshSlot l.rootdirBlk) := by
  obtain ⟨n, rfl, hn⟩ := h.eq_fill (by
    simp [anodeFields, Ascending, ANODE_BLOCK_HEADER_SIZE, ANODE_ROOTDIR, ANODE_SIZE])
  have hempty : ∀ j, j ≠ 5 → (freshSlot l.rootdirBlk (0 * 65536 + j)).bytes =
      List.replicate 12 0 := fun j hj => by
    have hne : freshSlot l.rootdirBlk (0 * 65536 + j) = .empty :=
      if_neg (by simp only [ANODE_ROOTDIR]; omega)
    rw [hne]
    rfl
  have hbefore := flatMap_zeros (f := fun off => (freshSlot l.rootdirBlk (0 * 65536 + off)).bytes)
    (w := 12) 0 5 fun j _ hj => hempty j (by omega)
  have hafter := flatMap_zeros (f := fun off => (freshSlot l.rootdirBlk (0 * 65536 + off)).bytes)
    (w := 12) (5 + 1) (84 - 5 - 1) fun j hj _ => hempty j (by omega)
  have hroot : (freshSlot l.rootdirBlk (0 * 65536 + 5)).bytes =
      enc32 1 ++ enc32 (l.rootdirBlk % 2 ^ 32) ++ enc32 0 := rfl
  have hgap : (List.replicate 64 0 : Bytes) = enc32 0 ++ List.replicate (5 * 12) 0 := rfl
  have hfill : fill [] (anodeFields l) = header ABLKID 1 ++ enc32 0 ++ enc32 0 ++
      List.replicate (5 * 12) 0 ++ (enc32 1 ++ enc32 l.rootdirBlk ++ enc32 0) := by
    rw [List.append_assoc (header ABLKID 1 ++ enc32 0), ← hgap]
    simp [fill, anodeFields, header, enc16, ANODE_BLOCK_HEADER_SIZE, ANODE_ROOTDIR, ANODE_SIZE]
  have hlen : (fill [] (anodeFields l)).length = 88 := by
    rw [hfill, List.length_append, List.length_append, List.length_replicate]
    rfl
  have hslots : SLOTS = 84 := rfl
  rw [anodeImage, hslots, flatMap_range_split (by omega : 5 < 84), List.range_eq_range', hbefore,
    hafter, hroot, enc32_mod, hfill, ← List.append_assoc, ← List.append_assoc]
  exact replicate_eq_of_length (by omega)

theorem rootdir_image {img : Bytes} (h : IsImage rootdirFields 1024 img) :
    img = dirImage 1 ⟨ANODE_ROOTDIR, ANODE_ROOTDIR, []⟩ := by
  obtain ⟨n, rfl, hn⟩ := h.eq_fill (by simp [rootdirFields, Ascending])
  have hlen : (fill [] rootdirFields).length = 20 := rfl
  have hfill : fill [] rootdirFields = dirHeader 1 ANODE_ROOTDIR ANODE_ROOTDIR := rfl
  have hsize : (⟨ANODE_ROOTDIR, ANODE_ROOTDIR, []⟩ : DirBlock).size = 0 := rfl
  rw [dirImage, hsize, hfill, List.flatMap_nil, List.append_nil]
  exact replicate_eq_of_length (by omega)

/-- A word of a fresh bitmap block. -/
theorem freeWord_eq (dataBlocks i : ℕ) :
    freeWord dataBlocks i = BitRun.word (fun r => decide (r < dataBlocks)) i := by
  refine BitRun.word_ext fun j hj => ?_
  unfold freeWord
  by_cases hi : i < dataBlocks
  · rw [if_pos hi, BitVec.getMsbD_shiftLeft, BitVec.getMsbD_allOnes]
    have hiff : j + (32 - min (dataBlocks - i) 32) < 32 ↔ i + j < dataBlocks := by omega
    simp [hiff]
  · rw [if_neg hi]
    have hge : ¬ i + j < dataBlocks := by omega
    simp [hge]

theorem bm_image {l : Layout} {seq : ℕ} {img : Bytes} (hipb : l.indexPerBlock = 253)
    (h : IsImage (bmFields l seq) 1024 img) :
    img = bitmapImage 1 seq fun r => decide (r < l.dataBlocks) := by
  have hflat : ((List.range l.indexPerBlock).flatMap fun j =>
      enc32 (freeWord l.dataBlocks (seq * (l.indexPerBlock * 32) + j * 32)).toNat) =
      (BitRun.words (fun r => decide (r < l.dataBlocks)) (seq * 8096) 253).flatMap
        fun w => enc32 w.toNat := by
    rw [hipb, BitRun.words, List.flatMap_map]
    refine List.flatMap_congr fun j _ => ?_
    rw [freeWord_eq, Nat.mul_comm j]
  have hlen : ((BitRun.words (fun r => decide (r < l.dataBlocks)) (seq * 8096) 253).flatMap
      fun w => enc32 w.toNat).length = 1012 := by
    rw [length_flatMap_words, BitRun.length_words]
  unfold bmFields at h
  rw [hflat] at h
  generalize hw : ((BitRun.words (fun r => decide (r < l.dataBlocks)) (seq * 8096) 253).flatMap
      fun w => enc32 w.toNat) = words at h hlen
  obtain ⟨n, rfl, hn⟩ := h.eq_fill (by simp [Ascending, hlen])
  have hfill : fill [] [(0, enc16 BMBLKID), (4, enc32 1), (8, enc32 seq), (12, words)] =
      header BMBLKID 1 ++ enc32 seq ++ words := by
    simp [fill, header, enc16]
  have hzero : n = 0 := by
    rw [hfill, List.length_append, List.length_append, hlen, length_header, length_enc32] at hn
    omega
  rw [bitmapImage, hw, hfill, hzero, List.replicate_zero, List.append_nil]

/-- Words with zeros behind them, as records. -/
theorem flatMap_getD (ws : List ℕ) {m : ℕ} (h : ws.length ≤ m) :
    ws.flatMap enc32 ++ List.replicate ((m - ws.length) * 4) 0 =
      (List.range m).flatMap fun j => enc32 (ws.getD j 0) := by
  have hws : (List.range ws.length).flatMap (fun j => enc32 (ws.getD j 0)) = ws.flatMap enc32 := by
    have hmap : (List.range ws.length).map (fun j => ws.getD j 0) = ws := by
      apply List.ext_getElem (by simp)
      intro j hj hj'
      simp [List.getD_eq_getElem?_getD, hj']
    conv_rhs => rw [← hmap, List.flatMap_map]
  have hzeros := flatMap_zeros (f := fun j => enc32 (ws.getD j 0)) (w := 4) ws.length
    (m - ws.length) fun j hj _ => by
      rw [List.getD_eq_default _ _ hj]
      rfl
  have hsplit : List.range m = List.range ws.length ++ List.range' ws.length (m - ws.length) := by
    have hlen : m = ws.length + (m - ws.length) := by omega
    conv_lhs => rw [hlen, List.range_eq_range', ← List.range'_append_1, Nat.zero_add]
    rw [List.range_eq_range']
  rw [hsplit, List.flatMap_append, hws, hzeros]

/-- The words of a bitmap index block. -/
theorem bmi_image {l : Layout} {seq : ℕ} {img : Bytes} (hipb : l.indexPerBlock = 253)
    (hsmall : ∀ b ∈ l.bmBlocknrs, b < U32) (h : IsImage (bmiFields l seq) 1024 img) {j : ℕ}
    (hj : j < 253) : be32 img (12 + j * 4) = l.bmBlocknrs.getD (seq * 253 + j) 0 := by
  unfold bmiFields at h
  rw [hipb] at h
  generalize hws : (l.bmBlocknrs.drop (seq * 253)).take 253 = ws at h
  have hlen : ws.length ≤ 253 := by
    rw [← hws, List.length_take]
    omega
  have hflat : (ws.flatMap enc32).length = ws.length * 4 := by simp [List.length_flatMap]
  obtain ⟨n, rfl, hn⟩ := h.eq_fill (by simp [Ascending, List.length_flatMap]; omega)
  have hfill : fill [] [(0, enc16 BMIBLKID), (4, enc32 1), (8, enc32 seq),
      (12, ws.flatMap enc32)] = header BMIBLKID 1 ++ enc32 seq ++ ws.flatMap enc32 := by
    simp [fill, header, enc16]
  have hrest : n = (253 - ws.length) * 4 := by
    rw [hfill, List.length_append, List.length_append, hflat, length_header, length_enc32] at hn
    omega
  have hrec := take_drop_records (p := header BMIBLKID 1 ++ enc32 seq) (q := [])
    (f := fun j => enc32 (ws.getD j 0)) (fun j => length_enc32 _) hj
  rw [List.append_nil] at hrec
  have hb := be32_of_take 4 (i := 0) hrec (by omega)
  have he := be32_enc32 (ws.getD j 0) []
  rw [List.append_nil] at he
  rw [hfill, hrest, List.append_assoc, flatMap_getD ws hlen]
  refine (hb.trans he).trans ?_
  have hget : ws.getD j 0 = l.bmBlocknrs.getD (seq * 253 + j) 0 := by
    rw [← hws, List.getD_eq_getElem?_getD, List.getD_eq_getElem?_getD,
      List.getElem?_take_of_lt hj, List.getElem?_drop]
  rw [hget]
  apply Nat.mod_eq_of_lt
  by_cases hin : seq * 253 + j < l.bmBlocknrs.length
  · rw [List.getD_eq_getElem _ _ hin]
    exact hsmall _ (List.getElem_mem hin)
  · rw [List.getD_eq_default _ _ (by omega)]
    exact Nat.two_pow_pos 32

/-! ## The rootblock cluster -/

namespace IsImage

variable {fields : List (ℕ × Bytes)} {size o i v : ℕ} {img src : Bytes}

/-- The `i`-th field, when no later one writes over it. -/
theorem get (h : IsImage fields size img) (i : ℕ) (hi : fields[i]? = some (o, src))
    (hout : ∀ p ∈ fields.drop (i + 1), o + src.length ≤ p.1 ∨ p.1 + p.2.length ≤ o) :
    (img.drop o).take src.length = src := by
  have hsplit : fields = fields.take i ++ (o, src) :: fields.drop (i + 1) := by
    obtain ⟨hlt, hget⟩ := List.getElem?_eq_some_iff.mp hi
    rw [← hget, ← List.drop_eq_getElem_cons hlt, List.take_append_drop]
  rw [hsplit] at h
  exact h.field hout

theorem get_be32 (h : IsImage fields size img) (i : ℕ) (hi : fields[i]? = some (o, enc32 v))
    (hout : ∀ p ∈ fields.drop (i + 1), o + 4 ≤ p.1 ∨ p.1 + p.2.length ≤ o) :
    be32 img o = v % 2 ^ 32 := by
  have hget := h.get i hi hout
  rw [length_enc32] at hget
  rw [be32_take, hget, ← List.append_nil (enc32 v), be32_enc32]

theorem get_be16 (h : IsImage fields size img) (i : ℕ) (hi : fields[i]? = some (o, enc16 v))
    (hout : ∀ p ∈ fields.drop (i + 1), o + 2 ≤ p.1 ∨ p.1 + p.2.length ≤ o) :
    be16 img o = v % 2 ^ 16 := by
  have hget := h.get i hi hout
  rw [length_enc16] at hget
  rw [be16_take, hget, ← List.append_nil (enc16 v), be16_enc16]

end IsImage

/-! ## Tables of words -/

/-- A table of words, read back with the zeros behind it. -/
theorem IsImage.get_words {fields : List (ℕ × Bytes)} {size o lim : ℕ} {img : Bytes} {ws : List ℕ}
    (h : IsImage fields size img) (i : ℕ) (hi : fields[i]? = some (o, ws.flatMap enc32))
    (hbefore : ∀ p ∈ fields.take i, p.1 + p.2.length ≤ o)
    (hafter : ∀ p ∈ fields.drop (i + 1), lim ≤ p.1) (hws : o + ws.length * 4 ≤ lim)
    (hlim : lim ≤ size) {j : ℕ} (hj : o + j * 4 + 4 ≤ lim) :
    be32 img (o + j * 4) = ws.getD j 0 % 2 ^ 32 := by
  have hlen : (ws.flatMap enc32).length = ws.length * 4 := by simp [List.length_flatMap]
  by_cases hlt : j < ws.length
  · have hget := h.get i hi fun p hp => Or.inl (by have := hafter p hp; omega)
    have hmap : (List.range ws.length).flatMap (fun j => enc32 (ws.getD j 0)) = ws.flatMap enc32 := by
      have hfm := flatMap_getD ws (le_refl ws.length)
      rw [Nat.sub_self, Nat.zero_mul, List.replicate_zero, List.append_nil] at hfm
      exact hfm.symm
    have hrec := take_drop_records (p := []) (q := []) (f := fun j => enc32 (ws.getD j 0))
      (fun j => length_enc32 _) hlt
    rw [List.nil_append, List.append_nil, List.length_nil, Nat.zero_add, hmap] at hrec
    have hb := be32_of_take (ws.flatMap enc32).length hget (by omega : j * 4 + 4 ≤ _)
    have he := be32_enc32 (ws.getD j 0) []
    rw [List.append_nil] at he
    rw [hb, be32_take, hrec]
    exact he
  · have hgap := h.gap (i := o + j * 4) (n := 4) (fun p hp => by
      have hsplit : fields = fields.take i ++ (o, ws.flatMap enc32) :: fields.drop (i + 1) := by
        obtain ⟨hlt, hget⟩ := List.getElem?_eq_some_iff.mp hi
        rw [← hget, ← List.drop_eq_getElem_cons hlt, List.take_append_drop]
      rw [hsplit] at hp
      rcases List.mem_append.mp hp with hp | hp
      · have := hbefore p hp
        omega
      · rcases List.mem_cons.mp hp with rfl | hp
        · exact Or.inr (by simp only; omega)
        · have := hafter p hp
          omega) (by omega)
    rw [be32_take, hgap, List.getD_eq_default _ _ (Nat.le_of_not_lt hlt)]
    rfl

/-- The fields of a fresh rootblock that stand before the index union. -/
structure Head (l : Layout) (totalBlocks : ℕ) (opts : FormatOptions) (img : Bytes) : Prop where
  magic : be32 img 0 = ID_PFS_DISK
  options : be32 img RB_OFF_OPTIONS = Format.options l
  datestamp : be32 img RB_OFF_DATESTAMP = 1
  namelen : img.getD RB_OFF_DISKNAME 0 = UInt8.ofNat ((asBytes opts.volumeName).take 30).length
  name : (img.drop (RB_OFF_DISKNAME + 1)).take ((asBytes opts.volumeName).take 30).length =
    (asBytes opts.volumeName).take 30
  lastreserved : be32 img RB_OFF_LASTRESERVED = l.lastreserved % 2 ^ 32
  firstreserved : be32 img RB_OFF_FIRSTRESERVED = 2
  reservedFree : be32 img RB_OFF_RESERVED_FREE = l.alloc.freeCount % 2 ^ 32
  reservedBlksize : be16 img RB_OFF_RESERVED_BLKSIZE = l.resblocksize % 2 ^ 16
  rblkcluster : be16 img RB_OFF_RBLKCLUSTER = l.rblkcluster % 2 ^ 16
  blocksfree : be32 img RB_OFF_BLOCKSFREE = l.dataBlocks % 2 ^ 32
  disksize : be32 img RB_OFF_DISKSIZE = totalBlocks % 2 ^ 32
  extension : be32 img RB_OFF_EXTENSION = l.rextBlk % 2 ^ 32

theorem options_lt (l : Layout) : options l < 2 ^ 32 := by
  unfold options
  cases l.supermode <;> decide

/-- The fields before the index union, and what follows. -/
theorem clusterFields_split (l : Layout) (totalBlocks : ℕ) (opts : FormatOptions)
    (now : Datestamp) : ∃ rest, clusterFields l totalBlocks opts now =
      [(0x00, enc32 ID_PFS_DISK), (0x04, enc32 (options l)), (0x08, enc32 1),
       (0x0C, enc16 now.day), (0x0E, enc16 now.minute), (0x10, enc16 now.tick),
       (0x12, enc16 0xF0), (0x14, [UInt8.ofNat ((asBytes opts.volumeName).take 30).length]),
       (0x15, (asBytes opts.volumeName).take 30), (0x34, enc32 l.lastreserved),
       (0x38, enc32 firstreserved), (0x3C, enc32 l.alloc.freeCount), (0x40, enc16 l.resblocksize),
       (0x42, enc16 l.rblkcluster), (0x44, enc32 l.dataBlocks), (0x48, enc32 (l.dataBlocks / 20)),
       (0x54, enc32 totalBlocks), (0x58, enc32 l.rextBlk)] ++ rest ∧ ∀ p ∈ rest, 0x60 ≤ p.1 := by
  refine ⟨_ :: (if l.supermode then []
    else [(0x60 + (MAXSMALLBITMAPINDEX + 1) * 4, enc32 l.anidxBlk)]) ++ [_, _, _], rfl, ?_⟩
  intro p hp
  have hs : SECTOR_SIZE = 512 := rfl
  rcases List.mem_append.mp hp with hp | hp
  · rcases List.mem_cons.mp hp with rfl | hp
    · exact le_rfl
    · split at hp
      · cases hp
      · rcases List.mem_singleton.mp hp with rfl
        exact Nat.le_add_right _ _
  · simp only [List.mem_cons, List.not_mem_nil, or_false] at hp
    rcases hp with rfl | rfl | rfl <;> simp only [hs] <;> omega

theorem head_image {l : Layout} {totalBlocks size : ℕ} {opts : FormatOptions} {now : Datestamp}
    {img : Bytes} (h : IsImage (clusterFields l totalBlocks opts now) size img) :
    Head l totalBlocks opts img := by
  have hname : ((asBytes opts.volumeName).take 30).length ≤ 30 := List.length_take_le _ _
  obtain ⟨rest, hfields, hrest⟩ := clusterFields_split l totalBlocks opts now
  rw [hfields] at h
  generalize hn : (asBytes opts.volumeName).take 30 = name at h hname
  -- no later field writes over a field before the index union
  have hout : ∀ (i : ℕ) (fields : List (ℕ × Bytes)) (o m : ℕ), o + m ≤ 0x60 →
      (∀ p ∈ fields.drop (i + 1), o + m ≤ p.1) →
      ∀ p ∈ (fields ++ rest).drop (i + 1), o + m ≤ p.1 ∨ p.1 + p.2.length ≤ o := by
    intro i fields o m hle hfields p hp
    rw [List.drop_append] at hp
    rcases List.mem_append.mp hp with hp | hp
    · exact Or.inl (hfields p hp)
    · have := hrest p (List.mem_of_mem_drop hp)
      exact Or.inl (by omega)
  constructor
  · exact h.get_be32 0 rfl (hout 0 _ _ _ (by omega) (by simp))
  · rw [← Nat.mod_eq_of_lt (options_lt l)]
    show be32 img 0x04 = _
    exact h.get_be32 1 rfl (hout 1 _ _ _ (by omega) (by simp))
  · show be32 img 0x08 = _
    exact h.get_be32 2 rfl (hout 2 _ _ _ (by omega) (by simp))
  · have hget := h.get 7 rfl (hout 7 _ _ _ (by simp) (by simp))
    have hd : img.getD RB_OFF_DISKNAME 0 = ((img.drop 0x14).take 1).getD 0 0 := by
      rw [List.getD_eq_getElem?_getD, List.getD_eq_getElem?_getD,
        List.getElem?_take_of_lt (by omega), List.getElem?_drop]
      rfl
    rw [List.length_singleton] at hget
    rw [hd, hget, hn]
    rfl
  · rw [hn]
    show (img.drop 0x15).take name.length = name
    exact h.get 8 rfl (hout 8 _ _ _ (by omega) (by simp; omega))
  · show be32 img 0x34 = _
    exact h.get_be32 9 rfl (hout 9 _ _ _ (by omega) (by simp))
  · show be32 img 0x38 = _
    exact h.get_be32 10 rfl (hout 10 _ _ _ (by omega) (by simp))
  · show be32 img 0x3C = _
    exact h.get_be32 11 rfl (hout 11 _ _ _ (by omega) (by simp))
  · show be16 img 0x40 = _
    exact h.get_be16 12 rfl (hout 12 _ _ _ (by omega) (by simp))
  · show be16 img 0x42 = _
    exact h.get_be16 13 rfl (hout 13 _ _ _ (by omega) (by simp))
  · show be32 img 0x44 = _
    exact h.get_be32 14 rfl (hout 14 _ _ _ (by omega) (by simp))
  · show be32 img 0x54 = _
    exact h.get_be32 16 rfl (hout 16 _ _ _ (by omega) (by simp))
  · show be32 img 0x58 = _
    exact h.get_be32 17 rfl (hout 17 _ _ _ (by omega) (by simp))

end Format

end Pfs3
