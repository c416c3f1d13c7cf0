import Pfs3.Store.Scan

/-!
# The scan for free data blocks as a walk over block numbers

`alloc_data_blocks` walks the words of the bitmap blocks bit by bit.  What it takes and how it
ends depends only on the block numbers of the set bits, in order: `pick` is that walk.
-/

namespace Pfs3

namespace Writer

/-- What the scan makes of the free block numbers `ps`, in order: it ends when it has `count`
blocks, and skips the numbers from `lim` on. -/
def pick (count lim : ℕ) : (ps : List ℕ) → (allocated : List ℕ) → List ℕ × Scan
  | [], allocated => (allocated, .more)
  | p :: ps, allocated =>
      if U32 ≤ p then (allocated, .overflow)
      else if U32 ≤ lim then (allocated, .panic)
      else if lim ≤ p then pick count lim ps allocated
      else if (allocated ++ [p]).length = count then (allocated ++ [p], .done)
      else pick count lim ps (allocated ++ [p])

/-- The block numbers of the set bits of a word whose first bit is for `base`. -/
def bitBlocks (base : ℕ) (long : BitVec 32) : List ℕ :=
  ((List.range 32).filter fun bit => long.getMsbD bit).map (base + ·)

/-- The block numbers of the set bits of consecutive words. -/
def longBlocks : (base : ℕ) → List (BitVec 32) → List ℕ
  | _, [] => []
  | base, long :: longs => bitBlocks base long ++ longBlocks (base + 32) longs

variable {count lim : ℕ}

/-! ## The walk -/

theorem pick_append (qs : List ℕ) : ∀ (ps allocated : List ℕ),
    pick count lim (ps ++ qs) allocated =
      match pick count lim ps allocated with
      | (allocated, .more) => pick count lim qs allocated
      | (allocated, scan) => (allocated, scan) := by
  intro ps
  induction ps with
  | nil => exact fun _ => rfl
  | cons p ps ih =>
      intro allocated
      rw [List.cons_append, pick, pick]
      by_cases h₁ : U32 ≤ p
      · rw [if_pos h₁, if_pos h₁]
      · by_cases h₂ : U32 ≤ lim
        · rw [if_neg h₁, if_neg h₁, if_pos h₂, if_pos h₂]
        · rw [if_neg h₁, if_neg h₁, if_neg h₂, if_neg h₂]
          by_cases h₃ : lim ≤ p
          · rw [if_pos h₃, if_pos h₃]
            exact ih allocated
          · rw [if_neg h₃, if_neg h₃]
            by_cases h₄ : (allocated ++ [p]).length = count
            · rw [if_pos h₄, if_pos h₄]
            · rw [if_neg h₄, if_neg h₄]
              exact ih (allocated ++ [p])

theorem and_bitMask_ne_zero {long : BitVec 32} {bit : ℕ} (h : bit < 32) :
    long &&& bitMask bit ≠ 0 ↔ long.getMsbD bit = true := by
  have hword : long = BitRun.word (fun i => long.getMsbD i) 0 :=
    BitRun.word_ext fun i _ => by rw [Nat.zero_add]
  have hiff := @BitRun.and_mask_ne_zero (fun i => long.getMsbD i) 0 bit h
  rw [← hword, Nat.zero_add] at hiff
  exact hiff

theorem getMsbD_and_not_bitMask {long : BitVec 32} {bit i : ℕ} (hi : i < 32) :
    (long &&& ~~~ bitMask bit).getMsbD i = (long.getMsbD i && !decide (i = bit)) := by
  have hmask := @BitRun.getMsbD_mask bit i hi
  rw [BitVec.getMsbD_and, BitVec.getMsbD_not, bitMask_eq, hmask]
  simp [hi]

/-- One word: the bits cleared on the way are those already passed. -/
theorem takeBits_pick (base : ℕ) : ∀ (bits : List ℕ) (long : BitVec 32) (allocated : List ℕ),
    bits.Nodup → (∀ bit ∈ bits, bit < 32) →
    (takeBits count base lim bits long allocated).2 =
      pick count lim ((bits.filter fun bit => long.getMsbD bit).map (base + ·)) allocated := by
  intro bits
  induction bits with
  | nil => exact fun _ _ _ _ => rfl
  | cons bit bits ih =>
      intro long allocated hnd hlt
      obtain ⟨hnot, hnd⟩ := List.nodup_cons.mp hnd
      have hbit := hlt bit List.mem_cons_self
      have hlt' : ∀ b ∈ bits, b < 32 := fun b hb => hlt b (List.mem_cons_of_mem _ hb)
      rw [takeBits]
      by_cases hset : long.getMsbD bit = true
      · rw [if_pos ((and_bitMask_ne_zero hbit).mpr hset), List.filter_cons_of_pos hset,
          List.map_cons, pick]
        have hcleared : (bits.filter fun b => (long &&& ~~~ bitMask bit).getMsbD b) =
            bits.filter fun b => long.getMsbD b := by
          refine List.filter_congr fun b hb => ?_
          have hne : b ≠ bit := fun h => hnot (h ▸ hb)
          rw [getMsbD_and_not_bitMask (hlt' b hb)]
          simp [hne]
        dsimp only
        by_cases h₁ : U32 ≤ base + bit
        · rw [if_pos h₁, if_pos h₁]
        · by_cases h₂ : U32 ≤ lim
          · rw [if_neg h₁, if_neg h₁, if_pos h₂, if_pos h₂]
          · rw [if_neg h₁, if_neg h₁, if_neg h₂, if_neg h₂]
            by_cases h₃ : lim ≤ base + bit
            · rw [if_pos h₃, if_pos h₃]
              exact ih long allocated hnd hlt'
            · rw [if_neg h₃, if_neg h₃]
              by_cases h₄ : (allocated ++ [base + bit]).length = count
              · rw [if_pos h₄, if_pos h₄]
              · rw [if_neg h₄, if_neg h₄, ih _ _ hnd hlt', hcleared]
      · rw [if_neg fun h => hset ((and_bitMask_ne_zero hbit).mp h), List.filter_cons_of_neg hset]
        exact ih long allocated hnd hlt'

/-- The words of a bitmap block. -/
theorem takeLongs_pick : ∀ (longs : List (BitVec 32)) (base : ℕ) (allocated : List ℕ),
    (takeLongs count lim base longs allocated).2 =
      pick count lim (longBlocks base longs) allocated ∧
    (takeLongs count lim base longs allocated).1.length = longs.length := by
  intro longs
  induction longs with
  | nil => exact fun _ _ => ⟨rfl, rfl⟩
  | cons long longs ih =>
      intro base allocated
      rw [takeLongs, longBlocks]
      by_cases hzero : long = 0
      · have hnil : bitBlocks base long = [] := by
          rw [hzero]
          simp [bitBlocks]
        obtain ⟨h₁, h₂⟩ := ih (base + 32) allocated
        rw [if_pos hzero, hnil, List.nil_append, ← h₁]
        exact ⟨rfl, congrArg (· + 1) h₂⟩
      · have hbits := @takeBits_pick count lim base (List.range 32) long
          allocated List.nodup_range fun b hb => List.mem_range.mp hb
        rw [if_neg hzero, pick_append]
        unfold bitBlocks
        rw [← hbits]
        rcases takeBits count base lim (List.range 32) long allocated with ⟨long', allocated', scan⟩
        cases scan with
        | more =>
            obtain ⟨h₁, h₂⟩ := ih (base + 32) allocated'
            exact ⟨h₁, congrArg (· + 1) h₂⟩
        | done => exact ⟨rfl, rfl⟩
        | overflow => exact ⟨rfl, rfl⟩
        | panic => exact ⟨rfl, rfl⟩

/-! ## What the walk picks from an ascending list -/

/-- With a limit in `u32`, the walk takes the numbers below the limit until it has enough. -/
theorem pick_below (hlim : lim < U32) : ∀ (ps allocated : List ℕ), ps.Pairwise (· < ·) →
    allocated.length < count →
    (count ≤ allocated.length + (ps.filter fun p => p < lim).length →
      pick count lim ps allocated =
        (allocated ++ (ps.filter fun p => p < lim).take (count - allocated.length), .done)) ∧
    (allocated.length + (ps.filter fun p => p < lim).length < count →
      ((pick count lim ps allocated).2 = .more ∨ (pick count lim ps allocated).2 = .overflow)) := by
  intro ps
  induction ps with
  | nil =>
      intro allocated _ hlt
      refine ⟨fun h => ?_, fun _ => Or.inl rfl⟩
      simp only [List.filter_nil, List.length_nil] at h
      omega
  | cons p ps ih =>
      intro allocated hsorted hlt
      obtain ⟨hp, hsorted⟩ := List.pairwise_cons.mp hsorted
      rw [pick]
      by_cases h₁ : U32 ≤ p
      · -- every later number is beyond the limit too
        have hnil : (p :: ps).filter (fun p => decide (p < lim)) = [] := by
          rw [List.filter_eq_nil_iff]
          intro q hq
          have hge : p ≤ q := by
            rcases List.mem_cons.mp hq with rfl | hq
            · exact le_rfl
            · exact (hp q hq).le
          simpa using (show lim ≤ q by omega)
        rw [hnil, if_pos h₁]
        refine ⟨fun h => ?_, fun _ => Or.inr rfl⟩
        simp only [List.length_nil] at h
        omega
      · rw [if_neg h₁, if_neg (by omega)]
        by_cases h₃ : lim ≤ p
        · rw [if_pos h₃, List.filter_cons_of_neg (by simpa using h₃)]
          exact ih allocated hsorted hlt
        · rw [if_neg h₃, List.filter_cons_of_pos (by simpa using h₃), List.length_cons]
          have hlen : (allocated ++ [p]).length = allocated.length + 1 := by simp
          by_cases h₄ : (allocated ++ [p]).length = count
          · rw [if_pos h₄]
            have hone : count - allocated.length = 0 + 1 := by omega
            rw [hone, List.take_succ_cons, List.take_zero]
            exact ⟨fun _ => rfl, fun h => by omega⟩
          · obtain ⟨hdone, hmore⟩ := ih (allocated ++ [p]) hsorted (by omega)
            rw [if_neg h₄]
            refine ⟨fun h => ?_, fun h => hmore (by omega)⟩
            have hsucc : count - allocated.length = (count - (allocated.length + 1)) + 1 := by omega
            rw [hdone (by omega), hlen, hsucc, List.take_succ_cons, List.append_assoc]
            rfl

/-- With a limit beyond `u32`, the first free number ends the walk. -/
theorem pick_beyond (hlim : U32 ≤ lim) (ps allocated : List ℕ) :
    pick count lim ps allocated =
      match ps with
      | [] => (allocated, .more)
      | p :: _ => if U32 ≤ p then (allocated, .overflow) else (allocated, .panic) := by
  cases ps with
  | nil => rfl
  | cons p ps =>
      rw [pick]
      by_cases h₁ : U32 ≤ p
      · simp only [if_pos h₁]
      · simp only [if_neg h₁, if_pos hlim]

/-! ## The block numbers of a bitmap block -/

theorem mem_bitBlocks {base p : ℕ} {long : BitVec 32} :
    p ∈ bitBlocks base long ↔ base ≤ p ∧ p < base + 32 ∧ long.getMsbD (p - base) = true := by
  unfold bitBlocks
  rw [List.mem_map]
  constructor
  · rintro ⟨bit, hbit, rfl⟩
    obtain ⟨hlt, hset⟩ := List.mem_filter.mp hbit
    have hlt := List.mem_range.mp hlt
    rw [Nat.add_sub_cancel_left]
    exact ⟨by omega, by omega, hset⟩
  · rintro ⟨hge, hlt, hset⟩
    exact ⟨p - base, List.mem_filter.mpr ⟨List.mem_range.mpr (by omega), hset⟩, by omega⟩

theorem mem_longBlocks {p : ℕ} : ∀ {longs : List (BitVec 32)} {base : ℕ},
    p ∈ longBlocks base longs ↔ base ≤ p ∧ p < base + longs.length * 32 ∧
      ∃ long, longs[(p - base) / 32]? = some long ∧ long.getMsbD ((p - base) % 32) = true := by
  intro longs
  induction longs with
  | nil =>
      intro base
      simp [longBlocks]
  | cons long longs ih =>
      intro base
      rw [longBlocks, List.mem_append, mem_bitBlocks, ih, List.length_cons]
      by_cases hfirst : p < base + 32
      · constructor
        · rintro (⟨hge, -, hset⟩ | ⟨hge, -, -⟩)
          · refine ⟨hge, by omega, long, ?_, ?_⟩
            · rw [Nat.div_eq_of_lt (by omega)]
              rfl
            · rwa [Nat.mod_eq_of_lt (by omega)]
          · omega
        · rintro ⟨hge, -, l, hl, hset⟩
          rw [Nat.div_eq_of_lt (by omega)] at hl
          rw [Nat.mod_eq_of_lt (by omega)] at hset
          obtain rfl : long = l := by simpa using hl
          exact Or.inl ⟨hge, hfirst, hset⟩
      · have hdiv : base ≤ p → (p - base) / 32 = (p - (base + 32)) / 32 + 1 := by omega
        have hmod : base ≤ p → (p - base) % 32 = (p - (base + 32)) % 32 := by omega
        constructor
        · rintro (⟨-, hlt, -⟩ | ⟨hge, hlt, l, hl, hset⟩)
          · omega
          · refine ⟨by omega, by omega, l, ?_, ?_⟩
            · rw [hdiv (by omega)]
              exact hl
            · rwa [hmod (by omega)]
        · rintro ⟨hge, hlt, l, hl, hset⟩
          rw [hdiv hge] at hl
          rw [hmod hge] at hset
          exact Or.inr ⟨by omega, by omega, l, hl, hset⟩

theorem sorted_longBlocks : ∀ (longs : List (BitVec 32)) (base : ℕ),
    (longBlocks base longs).Pairwise (· < ·) := by
  intro longs
  induction longs with
  | nil => exact fun _ => List.Pairwise.nil
  | cons long longs ih =>
      intro base
      refine List.pairwise_append.mpr ⟨?_, ih (base + 32), ?_⟩
      · unfold bitBlocks
        rw [List.pairwise_map]
        refine (List.Pairwise.filter _ List.pairwise_lt_range).imp ?_
        intro a b hab
        omega
      · intro p hp q hq
        obtain ⟨-, hlt, -⟩ := mem_bitBlocks.mp hp
        obtain ⟨hge, -, -⟩ := mem_longBlocks.mp hq
        omega

end Writer

end Pfs3
