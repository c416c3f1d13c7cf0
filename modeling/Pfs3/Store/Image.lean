import Pfs3.Lib.Bits
import Pfs3.Store.Ops

/-!
# Block images

The bytes of the blocks that the structured store describes: anode blocks, the anode index
block and bitmap blocks.  Each lemma says that a byte-level update of an image is the image
of the updated content.
-/

namespace Pfs3

open ByteList

/-- The first eight bytes of a reserved block: id and datestamp. -/
def header (id datestamp : ℕ) : Bytes := enc16 id ++ enc16 0 ++ enc32 datestamp

/-- The twelve bytes of an anode slot. -/
def Slot.bytes (s : Slot) : Bytes :=
  enc32 s.clustersize.toNat ++ enc32 s.blocknr.toNat ++ enc32 s.next.toNat

/-- The anode block of sequence number `seq`. -/
def anodeImage (datestamp seq : ℕ) (slot : ℕ → Slot) : Bytes :=
  (header ABLKID datestamp ++ enc32 seq ++ enc32 0) ++
    (List.range SLOTS).flatMap fun off => (slot (seq * 65536 + off)).bytes

/-- The anode index block. -/
def indexImage (datestamp : ℕ) (index : ℕ → ℕ) : Bytes :=
  (header IBLKID datestamp ++ enc32 0) ++ (List.range 253).flatMap fun i => enc32 (index i)

/-- The bitmap block of sequence number `seq`. -/
def bitmapImage (datestamp seq : ℕ) (free : ℕ → Bool) : Bytes :=
  (header BMBLKID datestamp ++ enc32 seq) ++
    (BitRun.words free (seq * 8096) 253).flatMap fun w => enc32 w.toNat

@[simp] theorem length_header (id ds : ℕ) : (header id ds).length = 8 := rfl

@[simp] theorem Slot.length_bytes (s : Slot) : s.bytes.length = 12 := rfl

@[simp] theorem length_anodeImage (ds seq : ℕ) (slot : ℕ → Slot) :
    (anodeImage ds seq slot).length = 1024 := by
  rw [anodeImage, List.length_append, length_flatMap_range (w := 12) fun _ => Slot.length_bytes _]
  rfl

@[simp] theorem length_indexImage (ds : ℕ) (index : ℕ → ℕ) :
    (indexImage ds index).length = 1024 := by
  rw [indexImage, List.length_append, length_flatMap_range (w := 4) fun _ => length_enc32 _]
  rfl

theorem length_flatMap_words (l : List (BitVec 32)) :
    (l.flatMap fun w => enc32 w.toNat).length = l.length * 4 := by
  simp [List.length_flatMap]

@[simp] theorem length_bitmapImage (ds seq : ℕ) (free : ℕ → Bool) :
    (bitmapImage ds seq free).length = 1024 := by
  rw [bitmapImage, List.length_append, length_flatMap_words, BitRun.length_words]
  rfl

/-! ## Header -/

theorem be16_header {id : ℕ} (hid : id < 65536) (ds : ℕ) (rest : Bytes) :
    be16 (header id ds ++ rest) 0 = id := by
  have h := be16_enc16 id (enc16 0 ++ enc32 ds ++ rest)
  rw [Nat.mod_eq_of_lt (by simpa using hid)] at h
  simpa only [header, List.append_assoc] using h

/-- Writing the datestamp of a block. -/
theorem stamp_header (id ds ds' : ℕ) (rest : Bytes) :
    splice (header id ds ++ rest) 4 (enc32 ds') = header id ds' ++ rest :=
  splice_part (a := enc16 id ++ enc16 0) (b := enc32 ds) (c := rest) rfl

theorem putU32_stamp {id ds ds' : ℕ} {rest : Bytes} :
    putU32 (header id ds ++ rest) 4 ds' = .ok (header id ds' ++ rest) := by
  rw [putU32, putBytes, if_pos (by simp), stamp_header]

theorem ok_bind {ε α β : Type} (a : α) (k : α → Except ε β) : (Except.ok a >>= k) = k a := rfl

/-- A sequence that succeeds, taken apart. -/
theorem of_bind_ok {ε α β : Type} {e : Except ε α} {k : α → Except ε β} {b : β}
    (h : (e >>= k) = .ok b) : ∃ a, e = .ok a ∧ k a = .ok b := by
  cases e with
  | error f => cases h
  | ok a => exact ⟨a, rfl, h⟩

theorem bind_eq_ok {ε α β : Type} {e : Except ε α} {k : α → Except ε β} {b : β} :
    (e >>= k) = .ok b ↔ ∃ a, e = .ok a ∧ k a = .ok b := by
  constructor
  · exact of_bind_ok
  · rintro ⟨a, rfl, ha⟩
    exact ha

theorem putBytes_ok {d src : Bytes} {off : ℕ} (h : off + src.length ≤ d.length) :
    putBytes d off src = .ok (splice d off src) := if_pos h

theorem putU32_ok {d : Bytes} {off v : ℕ} (h : off + 4 ≤ d.length) :
    putU32 d off v = .ok (splice d off (enc32 v)) := putBytes_ok (by simpa using h)

theorem putU16_ok {d : Bytes} {off v : ℕ} (h : off + 2 ≤ d.length) :
    putU16 d off v = .ok (splice d off (enc16 v)) := putBytes_ok (by simpa using h)

theorem readU32_ok {d : Bytes} {off : ℕ} (h : off + 4 ≤ d.length) :
    readU32 d off = .ok (be32 d off) := if_pos h

theorem readU16_ok {d : Bytes} {off : ℕ} (h : off + 2 ≤ d.length) :
    readU16 d off = .ok (be16 d off) := if_pos h

theorem readU8_ok {d : Bytes} {off : ℕ} (h : off < d.length) :
    readU8 d off = .ok (d.getD off 0).toNat := if_pos h

/-! ## Anode blocks -/

theorem be16_anodeImage (ds seq : ℕ) (slot : ℕ → Slot) : be16 (anodeImage ds seq slot) 0 = ABLKID := by
  rw [anodeImage, List.append_assoc, List.append_assoc]
  exact be16_header (by decide) _ _

theorem slot_anodeImage {ds seq off : ℕ} {slot : ℕ → Slot} (hoff : off < SLOTS) :
    ((anodeImage ds seq slot).drop (16 + off * 12)).take 12 = (slot (seq * 65536 + off)).bytes := by
  have h := take_drop_records (p := header ABLKID ds ++ enc32 seq ++ enc32 0) (q := [])
    (f := fun off => (slot (seq * 65536 + off)).bytes) (fun j => Slot.length_bytes _) hoff
  rwa [List.append_nil] at h

theorem be32_of_take {d b : Bytes} {base i : ℕ} (n : ℕ) (h : (d.drop base).take n = b)
    (hi : i + 4 ≤ n) : be32 d (base + i) = be32 b i := by
  apply be32_eq_of_take
  rw [← h, List.drop_take, List.drop_drop, List.take_take]
  congr 1
  omega

theorem be32_enc_uint32 (x : UInt32) (rest : Bytes) : be32 (enc32 x.toNat ++ rest) 0 = x.toNat := by
  rw [be32_enc32, Nat.mod_eq_of_lt x.toNat_lt]

theorem Slot.clustersize_bytes (s : Slot) : be32 s.bytes 0 = s.clustersize.toNat := by
  rw [Slot.bytes, List.append_assoc, be32_enc_uint32]

theorem Slot.blocknr_bytes (s : Slot) : be32 s.bytes 4 = s.blocknr.toNat := by
  have h := be32_append (enc32 s.clustersize.toNat) (enc32 s.blocknr.toNat ++ enc32 s.next.toNat) 0
  rw [be32_enc_uint32, ← List.append_assoc] at h
  exact h

theorem Slot.next_bytes (s : Slot) : be32 s.bytes 8 = s.next.toNat := by
  have h := be32_append (enc32 s.clustersize.toNat ++ enc32 s.blocknr.toNat)
    (enc32 s.next.toNat ++ []) 0
  rw [be32_enc_uint32, List.append_nil] at h
  exact h

section Fields

variable {ds seq off : ℕ} {slot : ℕ → Slot}

theorem clustersize_anodeImage (hoff : off < SLOTS) :
    be32 (anodeImage ds seq slot) (16 + off * 12) =
      (slot (seq * 65536 + off)).clustersize.toNat :=
  (be32_of_take 12 (i := 0) (slot_anodeImage hoff) (by omega)).trans (Slot.clustersize_bytes _)

theorem blocknr_anodeImage (hoff : off < SLOTS) :
    be32 (anodeImage ds seq slot) (16 + off * 12 + 4) =
      (slot (seq * 65536 + off)).blocknr.toNat :=
  (be32_of_take 12 (slot_anodeImage hoff) (by omega)).trans (Slot.blocknr_bytes _)

theorem next_anodeImage (hoff : off < SLOTS) :
    be32 (anodeImage ds seq slot) (16 + off * 12 + 8) =
      (slot (seq * 65536 + off)).next.toNat :=
  (be32_of_take 12 (slot_anodeImage hoff) (by omega)).trans (Slot.next_bytes _)

theorem parse_anodeImage (hoff : off < SLOTS) (nr : ℕ) :
    Anode.parse (anodeImage ds seq slot) (16 + off * 12) nr =
      (slot (seq * 65536 + off)).anode nr := by
  simp only [Anode.parse, Slot.anode, clustersize_anodeImage hoff, blocknr_anodeImage hoff,
    next_anodeImage hoff]

/-- Writing the three fields of a slot. -/
theorem putAnode_anodeImage {ds' cs bn nx : ℕ} (hoff : off < SLOTS) :
    Writer.putAnode (anodeImage ds seq slot) (ANODE_BLOCK_HEADER_SIZE + off * ANODE_SIZE) cs bn nx
        ds' =
      .ok (anodeImage ds' seq
        (Function.update slot (seq * 65536 + off) (Slot.ofNat cs bn nx))) := by
  have hmod : ∀ v, enc32 (v % 2 ^ 32) = enc32 v := by
    intro v
    simp only [enc32, List.cons.injEq, and_true]
    refine ⟨?_, ?_, ?_, ?_⟩ <;> apply UInt8.toNat.inj <;> simp only [UInt8.toNat_ofNat'] <;> omega
  have hbytes : (Slot.ofNat cs bn nx).bytes = enc32 cs ++ enc32 bn ++ enc32 nx := by
    simp only [Slot.bytes, Slot.ofNat, UInt32.toNat_ofNat', hmod]
  have hoff' : off < 84 := hoff
  have hbase : ANODE_BLOCK_HEADER_SIZE + off * ANODE_SIZE = 16 + off * 12 := rfl
  have hlen := length_anodeImage ds seq slot
  have hl₁ : (splice (anodeImage ds seq slot) (16 + off * 12) (enc32 cs)).length = 1024 := by
    rw [length_splice (by simp; omega), hlen]
  have hs₁ := splice_splice (d := anodeImage ds seq slot) (a := enc32 cs) (b := enc32 bn)
    (o := 16 + off * 12) (by simp; omega)
  have hl₂ : (splice (anodeImage ds seq slot) (16 + off * 12) (enc32 cs ++ enc32 bn)).length =
      1024 := by
    rw [length_splice (by simp; omega), hlen]
  have hs₂ := splice_splice (d := anodeImage ds seq slot) (a := enc32 cs ++ enc32 bn)
    (b := enc32 nx) (o := 16 + off * 12) (by simp; omega)
  have hrec := splice_records (p := header ABLKID ds ++ enc32 seq ++ enc32 0) (q := [])
    (f := fun off => (slot (seq * 65536 + off)).bytes)
    (g := fun o => (Function.update slot (seq * 65536 + off) (Slot.ofNat cs bn nx)
      (seq * 65536 + o)).bytes) (w := 12) (n := SLOTS) (i := off)
    (fun j => Slot.length_bytes _) hoff
    (fun j hj => by rw [Function.update_of_ne (by omega)]) (Slot.length_bytes _)
  rw [List.append_nil, List.append_nil, Function.update_self, hbytes] at hrec
  rw [Writer.putAnode, hbase, putU32_ok (by omega), ok_bind, putU32_ok (by omega), ok_bind,
    show 16 + off * 12 + 4 = 16 + off * 12 + (enc32 cs).length from rfl, hs₁,
    putU32_ok (by omega), ok_bind,
    show 16 + off * 12 + 8 = 16 + off * 12 + (enc32 cs ++ enc32 bn).length from rfl, hs₂]
  have hrec' : splice (anodeImage ds seq slot) (16 + off * 12) (enc32 cs ++ enc32 bn ++ enc32 nx) =
      anodeImage ds seq (Function.update slot (seq * 65536 + off) (Slot.ofNat cs bn nx)) := hrec
  rw [hrec', anodeImage, anodeImage, List.append_assoc, List.append_assoc, putU32_stamp]
  simp only [List.append_assoc]

end Fields

/-- A zeroed block in parts. -/
theorem replicate_split {n k : ℕ} (h : k ≤ n) :
    (List.replicate n 0 : Bytes) = List.replicate k 0 ++ List.replicate (n - k) 0 := by
  rw [List.replicate_append_replicate]
  congr 1
  omega

theorem flatMap_empty_bytes (n : ℕ) :
    ((List.range n).flatMap fun _ => Slot.empty.bytes) = List.replicate (n * 12) 0 := by
  induction n with
  | zero => rfl
  | succ n ih =>
      rw [List.range_succ, List.flatMap_append, ih]
      have h : (n + 1) * 12 = n * 12 + 12 := by omega
      rw [h, ← List.replicate_append_replicate]
      rfl

/-- The image of a block that `alloc_anode_block` queues. -/
theorem fresh_anodeImage (ds seq : ℕ) :
    (do
      let data ← putU16 (List.replicate 1024 0) 0 ABLKID
      let data ← putU32 data 4 ds
      putU32 data 8 seq) = (.ok (anodeImage ds seq fun _ => .empty) : Except Fault Bytes) := by
  have hzero : (List.replicate 1024 0 : Bytes) =
      enc16 0 ++ (enc16 0 ++ enc32 0) ++ (enc32 0 ++ (enc32 0 ++ List.replicate 1008 0)) := by
    rw [replicate_split (n := 1024) (k := 16) (by omega)]
    rfl
  have hid : splice (List.replicate 1024 0) 0 (enc16 ABLKID) =
      header ABLKID 0 ++ enc32 0 ++ (enc32 0 ++ List.replicate 1008 0) := by
    have h := splice_part (a := []) (b := enc16 0)
      (c := enc16 0 ++ enc32 0 ++ (enc32 0 ++ (enc32 0 ++ List.replicate 1008 0)))
      (x := enc16 ABLKID) rfl
    rw [hzero]
    simpa only [header, List.length_nil, List.nil_append, List.append_assoc] using h
  have hseq : splice (header ABLKID ds ++ enc32 0 ++ (enc32 0 ++ List.replicate 1008 0)) 8
      (enc32 seq) = header ABLKID ds ++ enc32 seq ++ (enc32 0 ++ List.replicate 1008 0) :=
    splice_part (a := header ABLKID ds) rfl
  have hlen : (List.replicate 1008 0 : Bytes).length = 1008 := List.length_replicate
  have hfits : 8 + 4 ≤ (header ABLKID ds ++ enc32 0 ++ (enc32 0 ++ List.replicate 1008 0)).length := by
    rw [List.length_append, List.length_append, List.length_append, hlen, length_header]
    omega
  rw [putU16_ok (by rw [List.length_replicate]; omega), ok_bind, hid, List.append_assoc,
    putU32_stamp, ok_bind, ← List.append_assoc, putU32_ok hfits, hseq, anodeImage]
  have hslots := flatMap_empty_bytes SLOTS
  rw [hslots]
  simp only [List.append_assoc]
  rfl

/-! ## Index and bitmap blocks -/

theorem index_indexImage {ds i : ℕ} {index : ℕ → ℕ} (hi : i < 253) :
    be32 (indexImage ds index) (12 + i * 4) = index i % 2 ^ 32 := by
  have h := take_drop_records (p := header IBLKID ds ++ enc32 0) (q := [])
    (f := fun i => enc32 (index i)) (fun j => length_enc32 _) hi
  rw [List.append_nil] at h
  have hb := be32_of_take 4 (i := 0) h (by omega)
  have he := be32_enc32 (index i) []
  rw [List.append_nil] at he
  exact hb.trans he

/-- Registering a block in the index. -/
theorem putIndex_indexImage {ds ds' i blk : ℕ} {index : ℕ → ℕ} (hi : i < 253) :
    (do
      let idata ← putU32 (indexImage ds index) (INDEX_BLOCK_HEADER_SIZE + i * 4) blk
      putU32 idata 4 ds') =
      (.ok (indexImage ds' (Function.update index i blk)) : Except Fault Bytes) := by
  have hbase : INDEX_BLOCK_HEADER_SIZE + i * 4 = 12 + i * 4 := rfl
  have hrec := splice_records (p := header IBLKID ds ++ enc32 0) (q := [])
    (f := fun i => enc32 (index i)) (g := fun j => enc32 (Function.update index i blk j))
    (w := 4) (n := 253) (i := i) (fun j => length_enc32 _) hi
    (fun j hj => by rw [Function.update_of_ne hj]) (length_enc32 _)
  rw [List.append_nil, List.append_nil, Function.update_self] at hrec
  have hrec' : splice (indexImage ds index) (12 + i * 4) (enc32 blk) =
      indexImage ds (Function.update index i blk) := hrec
  rw [hbase, putU32_ok (by simp; omega), ok_bind, hrec', indexImage, indexImage, List.append_assoc,
    putU32_stamp, ← List.append_assoc]

/-- Writing the words of a bitmap block. -/
theorem putWords_bitmapImage {ds ds' seq : ℕ} {free free' : ℕ → Bool} :
    (do
      let data ← putU32 (bitmapImage ds seq free) 4 ds'
      putBytes data 12 ((BitRun.words free' (seq * 8096) 253).flatMap fun l => enc32 l.toNat)) =
      (.ok (bitmapImage ds' seq free') : Except Fault Bytes) := by
  have hlen : ∀ f : ℕ → Bool, ((BitRun.words f (seq * 8096) 253).flatMap fun w =>
      enc32 w.toNat).length = 1012 := fun f => by
    rw [length_flatMap_words, BitRun.length_words]
  have hpart := splice_part (a := header BMBLKID ds' ++ enc32 seq) (c := [])
    (b := (BitRun.words free (seq * 8096) 253).flatMap fun w => enc32 w.toNat)
    (x := (BitRun.words free' (seq * 8096) 253).flatMap fun w => enc32 w.toNat)
    (by rw [hlen, hlen])
  rw [List.append_nil, List.append_nil] at hpart
  have hfits : 12 + ((BitRun.words free' (seq * 8096) 253).flatMap fun l => enc32 l.toNat).length ≤
      (header BMBLKID ds' ++ (enc32 seq ++ (BitRun.words free (seq * 8096) 253).flatMap
        fun w => enc32 w.toNat)).length := by
    rw [List.length_append, List.length_append, hlen, hlen, length_header, length_enc32]
  rw [bitmapImage, List.append_assoc, putU32_stamp, ok_bind, putBytes_ok hfits,
    ← List.append_assoc]
  exact congrArg Except.ok hpart

theorem getD_readWords {d : Bytes} {off n i : ℕ} (hi : i < n) (h : off + i * 4 + 4 ≤ d.length) :
    (readWords d off n).getD i 0 = be32 d (off + i * 4) := by
  have htake : (readWords d off n).getD i 0 = (beWords (d.drop off)).getD i 0 := by
    rw [readWords, List.getD_eq_getElem?_getD, List.getD_eq_getElem?_getD, List.getElem?_take_of_lt hi]
  rw [htake, getD_beWords _ _ (by rw [List.length_drop]; omega), be32, be32, List.drop_drop]

theorem length_readWords {d : Bytes} {off n : ℕ} (h : off + n * 4 ≤ d.length) :
    (readWords d off n).length = n := by
  rw [readWords, List.length_take, length_beWords, List.length_drop]
  omega

theorem readWords_bitmapImage {ds seq : ℕ} {free : ℕ → Bool} {n : ℕ} (hn : n = 253) :
    (readWords (bitmapImage ds seq free) 12 n).map (BitVec.ofNat 32) =
      BitRun.words free (seq * 8096) 253 := by
  have hdrop : (bitmapImage ds seq free).drop 12 =
      (BitRun.words free (seq * 8096) 253).flatMap fun w => enc32 w.toNat := by
    have h : 12 = (header BMBLKID ds ++ enc32 seq).length := rfl
    rw [bitmapImage, h, List.drop_left]
  have hflat : ((BitRun.words free (seq * 8096) 253).flatMap fun w => enc32 w.toNat) =
      ((BitRun.words free (seq * 8096) 253).map BitVec.toNat).flatMap enc32 := by
    rw [List.flatMap_map]
  have hwords := beWords_flatMap ((BitRun.words free (seq * 8096) 253).map BitVec.toNat) []
  rw [List.append_nil] at hwords
  rw [readWords, hdrop, hflat, hwords, hn]
  have hnil : beWords [] = [] := rfl
  rw [hnil, List.append_nil, List.take_of_length_le (by simp), List.map_map, List.map_map]
  conv_rhs => rw [← List.map_id (BitRun.words free (seq * 8096) 253)]
  apply List.map_congr_left
  intro w _
  apply BitVec.eq_of_toNat_eq
  simpa using w.isLt

end Pfs3
