import Mathlib.Data.List.Basic
import Mathlib.Tactic.Ring

/-!
# Big-endian fields in byte lists

A block is a list of bytes.  Fields are read big-endian at a byte offset (`be16`, `be32`)
and a byte string is written over a range with `splice`, which keeps the length.  The
lemmas say what a field reads after a splice: the encoded value when the splice is the
field's own, the old value when the ranges are disjoint.
-/

namespace ByteList

/-- A byte string, block or buffer. -/
abbrev Bytes := List UInt8

/-! ## Reading and encoding -/

/-- The big-endian 16-bit value at `off`; `0` when the range leaves the list. -/
def be16 (d : Bytes) (off : ℕ) : ℕ :=
  match d.drop off with
  | a :: b :: _ => a.toNat * 256 + b.toNat
  | _ => 0

/-- The big-endian 32-bit value at `off`; `0` when the range leaves the list. -/
def be32 (d : Bytes) (off : ℕ) : ℕ :=
  match d.drop off with
  | a :: b :: c :: e :: _ => ((a.toNat * 256 + b.toNat) * 256 + c.toNat) * 256 + e.toNat
  | _ => 0

/-- The two bytes of a 16-bit value, high byte first; higher bits are cut off. -/
def enc16 (v : ℕ) : Bytes := [UInt8.ofNat (v / 256), UInt8.ofNat v]

/-- The four bytes of a 32-bit value, high byte first; higher bits are cut off. -/
def enc32 (v : ℕ) : Bytes :=
  [UInt8.ofNat (v / 16777216), UInt8.ofNat (v / 65536), UInt8.ofNat (v / 256), UInt8.ofNat v]

/-- Consecutive big-endian 32-bit values; a rest shorter than four bytes is dropped. -/
def beWords : Bytes → List ℕ
  | a :: b :: c :: e :: rest =>
      (((a.toNat * 256 + b.toNat) * 256 + c.toNat) * 256 + e.toNat) :: beWords rest
  | _ => []

/-- `src` written over `d` from `off` on. -/
def splice (d : Bytes) (off : ℕ) (src : Bytes) : Bytes :=
  d.take off ++ src ++ d.drop (off + src.length)

@[simp] theorem length_enc16 (v : ℕ) : (enc16 v).length = 2 := rfl

@[simp] theorem length_enc32 (v : ℕ) : (enc32 v).length = 4 := rfl

theorem length_splice {d src : Bytes} {off : ℕ} (h : off + src.length ≤ d.length) :
    (splice d off src).length = d.length := by
  simp only [splice, List.length_append, List.length_take, List.length_drop]
  omega

/-- Each byte after a splice. -/
theorem getD_splice {d src : Bytes} {off : ℕ} (h : off ≤ d.length ∨ src = []) (k : ℕ) :
    (splice d off src).getD k 0 =
      if off ≤ k ∧ k < off + src.length then src.getD (k - off) 0 else d.getD k 0 := by
  rcases h with h | rfl
  · have htake : (d.take off).length = off := by rw [List.length_take]; omega
    simp only [splice, List.append_assoc, List.getD_eq_getElem?_getD]
    by_cases h₁ : k < off
    · rw [if_neg (by omega), List.getElem?_append_left (by omega), List.getElem?_take, if_pos h₁]
    · rw [List.getElem?_append_right (by omega), htake]
      by_cases h₂ : k < off + src.length
      · rw [if_pos (by omega), List.getElem?_append_left (by omega)]
      · rw [if_neg (by omega), List.getElem?_append_right (by omega), List.getElem?_drop]
        congr 2
        omega
  · rw [if_neg (by simp)]
    simp [splice]

theorem be32_lt (d : Bytes) (off : ℕ) : be32 d off < 2 ^ 32 := by
  unfold be32
  split
  · rename_i a b c e _ _
    have ha := a.toNat_lt
    have hb := b.toNat_lt
    have hc := c.toNat_lt
    have he := e.toNat_lt
    omega
  · norm_num

theorem be16_lt (d : Bytes) (off : ℕ) : be16 d off < 2 ^ 16 := by
  unfold be16
  split
  · rename_i a b _ _
    have ha := a.toNat_lt
    have hb := b.toNat_lt
    omega
  · norm_num

/-! ## Fields after a splice -/

theorem drop_splice_lt {d src : Bytes} {off i : ℕ} (hd : off + src.length ≤ d.length)
    (hi : i ≤ off) :
    (splice d off src).drop i = (d.drop i).take (off - i) ++ src ++ d.drop (off + src.length) := by
  have hlen : (d.take off).length = off := by rw [List.length_take]; omega
  rw [splice, List.append_assoc, List.drop_append_of_le_length (by omega), List.drop_take,
    ← List.append_assoc]

theorem drop_splice_ge {d src : Bytes} {off i : ℕ} (hd : off + src.length ≤ d.length)
    (hi : off + src.length ≤ i) : (splice d off src).drop i = d.drop i := by
  have hlen : (d.take off ++ src).length = off + src.length := by
    rw [List.length_append, List.length_take]; omega
  rw [splice, List.drop_append, hlen, List.drop_eq_nil_of_le (by omega), List.nil_append,
    List.drop_drop]
  congr 1
  omega

/-- A range of `n` bytes read after a splice that does not touch it. -/
theorem take_drop_splice {d src : Bytes} {off i n : ℕ} (hd : off + src.length ≤ d.length)
    (h : i + n ≤ off ∨ off + src.length ≤ i) :
    ((splice d off src).drop i).take n = (d.drop i).take n := by
  rcases h with h | h
  · rw [drop_splice_lt hd (by omega), List.append_assoc, List.take_append_of_le_length
      (by rw [List.length_take, List.length_drop]; omega), List.take_take, Nat.min_eq_left
      (by omega)]
  · rw [drop_splice_ge hd h]

/-- The spliced bytes themselves. -/
theorem take_drop_splice_self {d src : Bytes} {off : ℕ} (hd : off + src.length ≤ d.length) :
    ((splice d off src).drop off).take src.length = src := by
  rw [drop_splice_lt hd le_rfl]
  simp

theorem be32_take (d : Bytes) (off : ℕ) : be32 d off = be32 ((d.drop off).take 4) 0 := by
  unfold be32
  generalize d.drop off = l
  rcases l with _ | ⟨a, _ | ⟨b, _ | ⟨c, _ | ⟨e, r⟩⟩⟩⟩ <;> rfl

theorem be16_take (d : Bytes) (off : ℕ) : be16 d off = be16 ((d.drop off).take 2) 0 := by
  unfold be16
  generalize d.drop off = l
  rcases l with _ | ⟨a, _ | ⟨b, r⟩⟩ <;> rfl

theorem be32_eq_of_take {d d' : Bytes} {i j : ℕ} (h : (d.drop i).take 4 = (d'.drop j).take 4) :
    be32 d i = be32 d' j := by
  rw [be32_take d, be32_take d', h]

theorem be16_eq_of_take {d d' : Bytes} {i j : ℕ} (h : (d.drop i).take 2 = (d'.drop j).take 2) :
    be16 d i = be16 d' j := by
  rw [be16_take d, be16_take d', h]

/-- A 32-bit field outside the spliced range keeps its value. -/
theorem be32_splice_ne {d src : Bytes} {off i : ℕ} (hd : off + src.length ≤ d.length)
    (h : i + 4 ≤ off ∨ off + src.length ≤ i) : be32 (splice d off src) i = be32 d i :=
  be32_eq_of_take (take_drop_splice hd h)

/-- A 16-bit field outside the spliced range keeps its value. -/
theorem be16_splice_ne {d src : Bytes} {off i : ℕ} (hd : off + src.length ≤ d.length)
    (h : i + 2 ≤ off ∨ off + src.length ≤ i) : be16 (splice d off src) i = be16 d i :=
  be16_eq_of_take (take_drop_splice hd h)

theorem be32_enc32 (v : ℕ) (rest : Bytes) : be32 (enc32 v ++ rest) 0 = v % 2 ^ 32 := by
  simp only [be32, enc32, List.drop_zero, List.cons_append, UInt8.toNat_ofNat']
  omega

theorem be16_enc16 (v : ℕ) (rest : Bytes) : be16 (enc16 v ++ rest) 0 = v % 2 ^ 16 := by
  simp only [be16, enc16, List.drop_zero, List.cons_append, UInt8.toNat_ofNat']
  omega

/-- The encoding cuts the higher bits off. -/
theorem enc32_mod (v : ℕ) : enc32 (v % 2 ^ 32) = enc32 v := by
  simp only [enc32, List.cons.injEq, and_true]
  refine ⟨?_, ?_, ?_, ?_⟩ <;> apply UInt8.toNat.inj <;> simp only [UInt8.toNat_ofNat'] <;> omega

theorem enc16_mod (v : ℕ) : enc16 (v % 2 ^ 16) = enc16 v := by
  simp only [enc16, List.cons.injEq, and_true]
  refine ⟨?_, ?_⟩ <;> apply UInt8.toNat.inj <;> simp only [UInt8.toNat_ofNat'] <;> omega

/-- A 32-bit field reads what was just written there. -/
theorem be32_splice_self {d : Bytes} {off v : ℕ} (hd : off + 4 ≤ d.length) :
    be32 (splice d off (enc32 v)) off = v % 2 ^ 32 := by
  have h : ((splice d off (enc32 v)).drop off).take 4 = enc32 v :=
    @take_drop_splice_self d (enc32 v) off (by simpa using hd)
  rw [be32_take, h, ← List.append_nil (enc32 v), be32_enc32]

/-- A 16-bit field reads what was just written there. -/
theorem be16_splice_self {d : Bytes} {off v : ℕ} (hd : off + 2 ≤ d.length) :
    be16 (splice d off (enc16 v)) off = v % 2 ^ 16 := by
  have h : ((splice d off (enc16 v)).drop off).take 2 = enc16 v :=
    @take_drop_splice_self d (enc16 v) off (by simpa using hd)
  rw [be16_take, h, ← List.append_nil (enc16 v), be16_enc16]

/-! ## Blocks made of parts -/

theorem be32_append (a b : Bytes) (i : ℕ) : be32 (a ++ b) (a.length + i) = be32 b i := by
  have h : (a ++ b).drop (a.length + i) = b.drop i := List.drop_length_add_append i
  simp only [be32, h]

theorem be16_append (a b : Bytes) (i : ℕ) : be16 (a ++ b) (a.length + i) = be16 b i := by
  have h : (a ++ b).drop (a.length + i) = b.drop i := List.drop_length_add_append i
  simp only [be16, h]

/-- Writing over the middle part of a block. -/
theorem splice_middle {a b c x : Bytes} {off : ℕ} (h : off + x.length ≤ b.length) :
    splice (a ++ b ++ c) (a.length + off) x = a ++ splice b off x ++ c := by
  have htake : (a ++ b ++ c).take (a.length + off) = a ++ b.take off := by
    rw [List.append_assoc, List.take_length_add_append, List.take_append_of_le_length (by omega)]
  have hdrop : (a ++ b ++ c).drop (a.length + off + x.length) =
      b.drop (off + x.length) ++ c := by
    rw [List.append_assoc, Nat.add_assoc, List.drop_length_add_append,
      List.drop_append_of_le_length h]
  rw [splice, htake, hdrop]
  simp only [splice, List.append_assoc]

/-- Writing over a whole part of a block. -/
theorem splice_part {a b c x : Bytes} (h : x.length = b.length) :
    splice (a ++ b ++ c) a.length x = a ++ x ++ c := by
  have hs := @splice_middle a b c x 0 (by omega)
  rw [Nat.add_zero] at hs
  rw [hs]
  simp [splice, h]

/-- Two writes next to each other are one. -/
theorem splice_splice {d a b : Bytes} {o : ℕ} (h : o + a.length + b.length ≤ d.length) :
    splice (splice d o a) (o + a.length) b = splice d o (a ++ b) := by
  have hlen : (d.take o ++ a).length = o + a.length := by
    rw [List.length_append, List.length_take]
    omega
  have htake : (splice d o a).take (o + a.length) = d.take o ++ a := by
    rw [splice, List.take_append_of_le_length (by omega), List.take_of_length_le (by omega)]
  have hdrop : (splice d o a).drop (o + a.length + b.length) =
      d.drop (o + (a ++ b).length) := by
    rw [drop_splice_ge (by omega) (by omega), List.length_append, Nat.add_assoc]
  rw [splice, htake, hdrop]
  simp only [splice, List.append_assoc]

section Records

variable {f g : ℕ → Bytes} {w n i : ℕ} {p q : Bytes}

theorem length_flatMap_range (hw : ∀ j, (f j).length = w) (n : ℕ) :
    ((List.range n).flatMap f).length = n * w := by
  rw [List.length_flatMap, List.map_congr_left (fun j _ => hw j)]
  simp

theorem flatMap_range_split (hi : i < n) (f : ℕ → Bytes) :
    (List.range n).flatMap f = (List.range i).flatMap f ++ f i ++
      (List.range' (i + 1) (n - i - 1)).flatMap f := by
  have hn : n = i + (1 + (n - i - 1)) := by omega
  have hsplit : List.range n = List.range i ++ (i :: List.range' (i + 1) (n - i - 1)) := by
    rw [List.range_eq_range', List.range_eq_range', hn, ← List.range'_append_1]
    congr 1
    rw [Nat.zero_add, Nat.add_comm 1, List.range'_succ]
    congr 2
    omega
  rw [hsplit]
  simp

/-- The `i`-th of equally long records. -/
theorem take_drop_records (hw : ∀ j, (f j).length = w) (hi : i < n) :
    ((p ++ (List.range n).flatMap f ++ q).drop (p.length + i * w)).take w = f i := by
  rw [flatMap_range_split hi f, List.append_assoc, List.drop_length_add_append, List.append_assoc,
    List.append_assoc, ← length_flatMap_range hw i, List.drop_left, List.take_append_of_le_length
    (by rw [hw]), List.take_of_length_le (by rw [hw])]

/-- Writing over the `i`-th of equally long records. -/
theorem splice_records (hw : ∀ j, (f j).length = w) (hi : i < n)
    (hf : ∀ j, j ≠ i → g j = f j) (hfi : (g i).length = w) :
    splice (p ++ (List.range n).flatMap f ++ q) (p.length + i * w) (g i) =
      p ++ (List.range n).flatMap g ++ q := by
  have hbefore : (List.range i).flatMap g = (List.range i).flatMap f :=
    List.flatMap_congr fun j hj => hf j (by simp at hj; omega)
  have hafter : (List.range' (i + 1) (n - i - 1)).flatMap g =
      (List.range' (i + 1) (n - i - 1)).flatMap f :=
    List.flatMap_congr fun j hj => hf j (by simp [List.mem_range'_1] at hj; omega)
  have hpart := @splice_part (p ++ (List.range i).flatMap f) (f i)
    ((List.range' (i + 1) (n - i - 1)).flatMap f ++ q) (g i) (by rw [hw, hfi])
  rw [List.length_append, length_flatMap_range hw] at hpart
  rw [flatMap_range_split hi f, flatMap_range_split hi g, hbefore, hafter]
  simpa only [List.append_assoc] using hpart

end Records

/-- Words read back from their encoding. -/
theorem beWords_flatMap (l : List ℕ) (rest : Bytes) :
    beWords (l.flatMap enc32 ++ rest) = l.map (· % 2 ^ 32) ++ beWords rest := by
  induction l with
  | nil => rfl
  | cons v l ih =>
      have hv := be32_enc32 v []
      simp only [be32, enc32, List.append_nil, List.drop_zero] at hv
      simp only [List.flatMap_cons, List.append_assoc, List.map_cons, List.cons_append]
      rw [← hv, ← ih]
      rfl

theorem getD_beWords (l : Bytes) : ∀ i, i * 4 + 4 ≤ l.length → (beWords l).getD i 0 = be32 l (i * 4) := by
  intro i
  induction i generalizing l with
  | zero =>
      intro h
      rcases l with _ | ⟨a, _ | ⟨b, _ | ⟨c, _ | ⟨e, l⟩⟩⟩⟩
      · simp at h
      · simp at h
      · simp at h
      · simp at h
      · rfl
  | succ i ih =>
      intro h
      rcases l with _ | ⟨a, _ | ⟨b, _ | ⟨c, _ | ⟨e, l⟩⟩⟩⟩
      · simp at h
      · simp at h
      · simp at h
      · simp at h
      · have hrest := ih l (by simp only [List.length_cons] at h; omega)
        have hoff : (i + 1) * 4 = i * 4 + 4 := by omega
        rw [hoff]
        exact hrest

theorem length_beWords (l : Bytes) : (beWords l).length = l.length / 4 := by
  induction l using beWords.induct with
  | case1 a b c e rest ih =>
      rw [beWords, List.length_cons, ih]
      simp only [List.length_cons]
      omega
  | case2 l hne =>
      rcases l with _ | ⟨a, _ | ⟨b, _ | ⟨c, _ | ⟨e, l⟩⟩⟩⟩
      · simp [beWords]
      · simp [beWords]
      · simp [beWords]
      · simp [beWords]
      · exact absurd rfl (hne a b c e l)

end ByteList
