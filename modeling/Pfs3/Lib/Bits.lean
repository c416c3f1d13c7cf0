import Mathlib.Data.List.Range
import Mathlib.Logic.Function.Basic

/-!
# Bitmaps as words

A bitmap is a predicate on positions.  It is stored as 32-bit words, position `base + i` in
the `i`-th highest bit of the word for `base`.  Testing, clearing and setting a bit through
a mask are the same operations on the predicate.
-/

namespace BitRun

/-- The word holding the positions from `base` on, first position in the highest bit. -/
@[irreducible] def word (f : ℕ → Bool) (base : ℕ) : BitVec 32 :=
  (BitVec.ofBoolListBE ((List.range' base 32).map f)).cast (by simp)

/-- The mask of the `bit`-th highest bit. -/
def mask (bit : ℕ) : BitVec 32 := 0x80000000#32 >>> bit

theorem getMsbD_word (f : ℕ → Bool) (base : ℕ) {i : ℕ} (hi : i < 32) :
    (word f base).getMsbD i = f (base + i) := by
  simp [word, hi]

theorem getMsbD_mask {bit i : ℕ} (hi : i < 32) : (mask bit).getMsbD i = decide (i = bit) := by
  have htop : ∀ j, (0x80000000#32).getMsbD j = decide (j = 0) := by
    intro j
    have hpow : (0x80000000#32) = BitVec.twoPow 32 31 := by decide
    rw [BitVec.getMsbD, hpow, BitVec.getLsbD_twoPow]
    by_cases hj : j = 0
    · simp [hj]
    · have hne : j < 32 → ¬ 31 = 32 - 1 - j := by omega
      simpa [hj] using hne
  rw [mask, BitVec.getMsbD_ushiftRight, htop]
  by_cases hlt : i < bit
  · have hne : i ≠ bit := by omega
    simp [hlt, hne]
  · have hiff : i - bit = 0 ↔ i = bit := by omega
    simp [hlt, hi, hiff]

theorem word_ext {w : BitVec 32} {f : ℕ → Bool} {base : ℕ}
    (h : ∀ i < 32, w.getMsbD i = f (base + i)) : w = word f base := by
  apply BitVec.eq_of_getMsbD_eq
  intro i hi
  rw [h i hi, getMsbD_word f base hi]

theorem word_congr {f g : ℕ → Bool} {base base' : ℕ}
    (h : ∀ i < 32, f (base + i) = g (base' + i)) : word f base = word g base' :=
  word_ext fun i hi => by rw [getMsbD_word f base hi, h i hi]

theorem word_eq_zero {f : ℕ → Bool} {base : ℕ} :
    word f base = 0 ↔ ∀ i < 32, f (base + i) = false := by
  constructor
  · intro h i hi
    rw [← getMsbD_word f base hi, h]
    simp
  · intro h
    symm
    apply word_ext
    intro i hi
    rw [h i hi]
    simp

theorem and_mask_ne_zero {f : ℕ → Bool} {base bit : ℕ} (hbit : bit < 32) :
    word f base &&& mask bit ≠ 0 ↔ f (base + bit) = true := by
  constructor
  · intro h
    by_contra hf
    apply h
    apply BitVec.eq_of_getMsbD_eq
    intro i hi
    rw [BitVec.getMsbD_and, getMsbD_word f base hi, getMsbD_mask hi]
    by_cases heq : i = bit
    · subst heq
      simp [hf]
    · simp [heq]
  · intro hf h
    have hb : (word f base &&& mask bit).getMsbD bit = false := by rw [h]; simp
    rw [BitVec.getMsbD_and, getMsbD_word f base hbit, getMsbD_mask hbit, hf] at hb
    simp at hb

/-- Clearing a bit of a word takes its position out of the predicate. -/
theorem word_and_not_mask {f : ℕ → Bool} {base bit : ℕ} :
    word f base &&& ~~~ mask bit = word (Function.update f (base + bit) false) base := by
  apply word_ext
  intro i hi
  rw [BitVec.getMsbD_and, BitVec.getMsbD_not, getMsbD_word f base hi, getMsbD_mask hi]
  by_cases heq : i = bit
  · subst heq
    simp
  · simp [heq, hi]

/-- Setting a bit of a word adds its position to the predicate. -/
theorem word_or_mask {f : ℕ → Bool} {base bit : ℕ} (hbit : bit < 32) :
    word f base ||| mask bit = word (Function.update f (base + bit) true) base := by
  apply word_ext
  intro i hi
  rw [BitVec.getMsbD_or, getMsbD_word f base hi, getMsbD_mask hi]
  by_cases heq : i = bit
  · subst heq
    simp
  · simp [heq]

/-! ## Runs of words -/

/-- `n` consecutive words from position `base` on. -/
def words (f : ℕ → Bool) (base n : ℕ) : List (BitVec 32) :=
  (List.range n).map fun i => word f (base + 32 * i)

@[simp] theorem length_words (f : ℕ → Bool) (base n : ℕ) : (words f base n).length = n := by
  simp [words]

@[simp] theorem words_zero (f : ℕ → Bool) (base : ℕ) : words f base 0 = [] := rfl

theorem words_succ (f : ℕ → Bool) (base n : ℕ) :
    words f base (n + 1) = word f base :: words f (base + 32) n := by
  simp only [words, List.range_succ_eq_map, List.map_cons, List.map_map, Nat.mul_zero, Nat.add_zero]
  refine congrArg (word f base :: ·) (List.map_congr_left fun i _ => ?_)
  have hpos : base + 32 * (i + 1) = base + 32 + 32 * i := by omega
  exact congrArg (word f) hpos

theorem getElem_words {f : ℕ → Bool} {base n i : ℕ} (hi : i < (words f base n).length) :
    (words f base n)[i] = word f (base + 32 * i) := by
  simp [words]

theorem getElem?_words {f : ℕ → Bool} {base n i : ℕ} (hi : i < n) :
    (words f base n)[i]? = some (word f (base + 32 * i)) := by
  rw [List.getElem?_eq_getElem (by simpa using hi), getElem_words]

theorem words_congr {f g : ℕ → Bool} {base n : ℕ}
    (h : ∀ i < 32 * n, f (base + i) = g (base + i)) : words f base n = words g base n := by
  apply List.map_congr_left
  intro i hi
  apply word_congr
  intro j hj
  have hin : i < n := List.mem_range.mp hi
  rw [Nat.add_assoc]
  exact h (32 * i + j) (by omega)

/-- One word of a run replaced: the predicate changes only in that word's positions. -/
theorem words_set {f g : ℕ → Bool} {base n i : ℕ}
    (h : ∀ p, (p < base + 32 * i ∨ base + 32 * i + 32 ≤ p) → f p = g p) :
    (words f base n).set i (word g (base + 32 * i)) = words g base n := by
  apply List.ext_getElem (by simp)
  intro j hj hj'
  rw [List.getElem_set, getElem_words]
  by_cases hij : i = j
  · subst hij
    rw [if_pos rfl, getElem_words]
  · rw [if_neg hij, getElem_words]
    apply word_congr
    intro b hb
    apply h
    omega

/-! ## Counting -/

/-- The set positions among the `n` from `base` on. -/
def count (f : ℕ → Bool) (base n : ℕ) : ℕ := (List.range' base n).countP f

@[simp] theorem count_zero (f : ℕ → Bool) (base : ℕ) : count f base 0 = 0 := rfl

theorem count_add (f : ℕ → Bool) (base m n : ℕ) :
    count f base (m + n) = count f base m + count f (base + m) n := by
  rw [count, ← List.range'_append_1, List.countP_append]
  rfl

theorem count_eq_zero {f : ℕ → Bool} {base n : ℕ} (h : ∀ i, base ≤ i → f i = false) :
    count f base n = 0 :=
  List.countP_eq_zero.mpr fun i hi => by rw [h i (List.mem_range'_1.mp hi).1]; decide

theorem count_congr {f g : ℕ → Bool} {base n : ℕ}
    (h : ∀ i, base ≤ i → i < base + n → f i = g i) : count f base n = count g base n := by
  refine List.countP_congr fun i hi => ?_
  obtain ⟨hge, hlt⟩ := List.mem_range'_1.mp hi
  rw [h i hge hlt]

/-- Clearing a set bit. -/
theorem count_clear {f : ℕ → Bool} {k n : ℕ} (hk : k < n) (hset : f k = true) :
    count (Function.update f k false) 0 n + 1 = count f 0 n := by
  obtain ⟨m, rfl⟩ : ∃ m, n = k + (1 + m) := ⟨n - k - 1, by omega⟩
  have hbelow : count (Function.update f k false) 0 k = count f 0 k :=
    count_congr fun i _ hi => Function.update_of_ne (by omega) _ _
  have habove : count (Function.update f k false) (0 + k + 1) m = count f (0 + k + 1) m :=
    count_congr fun i hi _ => Function.update_of_ne (by omega) _ _
  have hone : ∀ g : ℕ → Bool, count g (0 + k) 1 = if g k then 1 else 0 := by
    intro g
    rw [Nat.zero_add, count, List.range'_one, List.countP_cons, List.countP_nil, Nat.zero_add]
  rw [count_add, count_add, count_add, count_add, hbelow, habove, hone, hone, hset,
    Function.update_self, if_neg Bool.false_ne_true, if_pos rfl]
  omega

/-- Positions that are not set do not count. -/
theorem count_extend {f : ℕ → Bool} {m n : ℕ} (h : ∀ i, m ≤ i → f i = false) (hn : m ≤ n) :
    count f 0 n = count f 0 m := by
  obtain ⟨k, rfl⟩ := Nat.exists_eq_add_of_le hn
  have hrest : count f (0 + m) k = 0 := count_eq_zero fun i hi => h i (by omega)
  rw [count_add, hrest, Nat.add_zero]

theorem count_pos {f : ℕ → Bool} {base n k : ℕ} (hge : base ≤ k) (hlt : k < base + n)
    (hset : f k = true) : 0 < count f base n :=
  List.countP_pos_iff.mpr ⟨k, List.mem_range'_1.mpr ⟨hge, hlt⟩, hset⟩

/-- Positions that are set lie below `m`. -/
theorem count_of_bound {f : ℕ → Bool} {m n : ℕ} (h : ∀ i, f i = true → i < m) (hn : m ≤ n) :
    count f 0 n = ((List.range m).filter f).length := by
  have hrest : ∀ i, m ≤ i → f i = false := fun i hi => by
    by_contra hne
    have hlt := h i (by simpa using hne)
    omega
  rw [count_extend hrest hn, count, ← List.range_eq_range', List.countP_eq_length_filter]

/-- The bits of a word, up to the `bits`-th. -/
theorem countP_word (f : ℕ → Bool) (base : ℕ) {bits : ℕ} (hbits : bits ≤ 32) :
    ((List.range 32).countP fun i => decide (i < bits) && (word f base).getMsbD i) =
      count f base bits := by
  obtain ⟨k, hk⟩ := Nat.exists_eq_add_of_le hbits
  have hfirst : ((List.range bits).countP fun i => decide (i < bits) && (word f base).getMsbD i) =
      (List.range bits).countP fun i => f (base + i) := by
    refine List.countP_congr fun i hi => ?_
    have hlt := List.mem_range.mp hi
    rw [getMsbD_word f base (by omega), decide_eq_true hlt, Bool.true_and]
  have hlast : (((List.range k).map (bits + ·)).countP
      fun i => decide (i < bits) && (word f base).getMsbD i) = 0 := by
    refine List.countP_eq_zero.mpr fun i hi => ?_
    obtain ⟨j, -, rfl⟩ := List.mem_map.mp hi
    rw [decide_eq_false (by omega), Bool.false_and]
    exact Bool.false_ne_true
  have hsplit : List.range 32 = List.range bits ++ (List.range k).map (bits + ·) := by
    rw [hk, List.range_add]
  rw [hsplit, List.countP_append, hfirst, hlast, Nat.add_zero, count, List.range'_eq_map_range,
    List.countP_map]
  rfl

end BitRun
