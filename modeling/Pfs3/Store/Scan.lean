import Mathlib.Data.List.Find
import Pfs3.Store.Image

/-!
# Scanning bitmaps

What the word-by-word scans of `alloc_data_blocks` and `alloc_reserved_block` do in terms of
the predicate that the words stand for.
-/

namespace Pfs3

open BitRun

namespace Writer

theorem bitMask_eq (bit : ℕ) : bitMask bit = BitRun.mask bit := rfl

/-! ## First free bit -/

theorem find?_range_add {f : ℕ → Bool} {base : ℕ} (n : ℕ) :
    ((List.range n).find? fun i => f (base + i)).map (base + ·) =
      (List.range' base n).find? f := by
  rw [List.range'_eq_map_range, List.find?_map]
  rfl

theorem firstBit_word (f : ℕ → Bool) (base : ℕ) :
    firstBit (word f base) = (List.range 32).find? fun i => f (base + i) := by
  unfold firstBit
  apply List.find?_congr
  intro bit hbit
  have hlt : bit < 32 := List.mem_range.mp hbit
  rw [bitMask_eq, Bool.eq_iff_iff, decide_eq_true_eq]
  exact and_mask_ne_zero hlt

/-- `alloc_reserved_block` finds the first position of the bitmap that is free. -/
theorem firstFree_words (f : ℕ → Bool) (n : ℕ) : ∀ li : ℕ,
    (firstFree li (words f (li * 32) n)).map (fun p => p.1 * 32 + p.2) =
      (List.range' (li * 32) (32 * n)).find? f := by
  induction n with
  | zero => intro li; rfl
  | succ n ih =>
      intro li
      have hsplit : List.range' (li * 32) (32 * (n + 1)) =
          List.range' (li * 32) 32 ++ List.range' ((li + 1) * 32) (32 * n) := by
        have hadd : 32 * (n + 1) = 32 + 32 * n := by omega
        have hnext : (li + 1) * 32 = li * 32 + 32 := by omega
        rw [hadd, hnext, List.range'_append_1]
      have hnext : li * 32 + 32 = (li + 1) * 32 := by omega
      have hbit := firstBit_word f (li * 32)
      have hfind := @find?_range_add f (li * 32) 32
      rw [words_succ, firstFree, hsplit, List.find?_append, ← hfind, hnext]
      by_cases hzero : word f (li * 32) = 0
      · have hnone : (List.range 32).find? (fun i => f (li * 32 + i)) = none := by
          rw [List.find?_eq_none]
          intro i hi
          rw [word_eq_zero.mp hzero i (List.mem_range.mp hi)]
          simp
        rw [if_pos hzero, hnone, ih]
        rfl
      · rw [if_neg hzero]
        cases hb : firstBit (word f (li * 32)) with
        | none =>
            rw [hb] at hbit
            rw [← hbit, ih]
            rfl
        | some bit =>
            rw [hb] at hbit
            rw [← hbit]
            rfl

theorem firstFree_lt {f : ℕ → Bool} {n : ℕ} : ∀ {base li l b : ℕ},
    firstFree li (words f base n) = some (l, b) → li ≤ l ∧ l < li + n ∧ b < 32 := by
  induction n with
  | zero => intro base li l b h; cases h
  | succ n ih =>
      intro base li l b h
      rw [words_succ, firstFree] at h
      split at h
      · have hrest := ih h
        omega
      · split at h
        · rename_i bit hbit
          have hlt : bit < 32 := List.mem_range.mp (List.mem_of_find?_eq_some hbit)
          simp only [Option.some.injEq, Prod.mk.injEq] at h
          omega
        · have hrest := ih h
          omega

/-! ## Taking free bits -/

/-- The positions that a scan takes from the free positions `c` of its range, when `have_`
were taken before: as many as are missing.  `count = 0` is never reached. -/
def taken (count have_ : ℕ) (c : List ℕ) : List ℕ := if count = 0 then c else c.take (count - have_)

/-- How the scan ends. -/
def scanEnd (count have_ : ℕ) (c : List ℕ) : Scan :=
  if 0 < count ∧ count ≤ have_ + c.length then .done else .more

/-- The predicate without the positions `t`. -/
def without (f : ℕ → Bool) (t : List ℕ) (r : ℕ) : Bool := f r && decide (r ∉ t)

theorem without_nil (f : ℕ → Bool) : without f [] = f := by
  funext r
  simp [without]

theorem without_cons (f : ℕ → Bool) (p : ℕ) (t : List ℕ) :
    without f (p :: t) = without (Function.update f p false) t := by
  funext r
  by_cases h : r = p
  · subst h
    simp [without]
  · simp [without, h]

theorem without_append (f : ℕ → Bool) (t u : List ℕ) :
    without f (t ++ u) = without (without f t) u := by
  funext r
  simp [without, Bool.and_assoc]

theorem filter_update {f : ℕ → Bool} {p : ℕ} {ps : List ℕ} (h : p ∉ ps) :
    ps.filter (Function.update f p false) = ps.filter f := by
  apply List.filter_congr
  intro q hq
  have hne : q ≠ p := fun h' => h (h' ▸ hq)
  rw [Function.update_of_ne hne]

theorem filter_without {f : ℕ → Bool} {t ps : List ℕ} (h : ∀ q ∈ ps, q ∉ t) :
    ps.filter (without f t) = ps.filter f := by
  apply List.filter_congr
  intro q hq
  simp [without, h q hq]

section

variable {count D lim : ℕ}

/-- One word: the free bits are taken in order until there are enough. -/
theorem takeBits_word (hU : lim < U32) (base : ℕ) :
    ∀ (bits : List ℕ) (f : ℕ → Bool) (allocated : List ℕ), bits.Nodup → (∀ b ∈ bits, b < 32) →
      (∀ r, f r → D + r < lim) → (allocated.length < count ∨ count = 0) →
      takeBits count (D + base) lim bits (word f base) allocated =
        (word (without f (taken count allocated.length ((bits.map (base + ·)).filter f))) base,
          allocated ++ (taken count allocated.length ((bits.map (base + ·)).filter f)).map (D + ·),
          scanEnd count allocated.length ((bits.map (base + ·)).filter f)) := by
  intro bits
  induction bits with
  | nil =>
      intro f allocated _ _ _ hcount
      have htaken : taken count allocated.length [] = [] := by
        unfold taken
        split <;> simp
      have hend : scanEnd count allocated.length [] = .more := by
        unfold scanEnd
        rw [if_neg]
        simp only [List.length_nil]
        omega
      simp only [List.map_nil, List.filter_nil, htaken, hend, without_nil, takeBits,
        List.append_nil]
  | cons bit bits ih =>
      intro f allocated hnd hlt hlim hcount
      obtain ⟨hnot, hnd⟩ := List.nodup_cons.mp hnd
      have hbit : bit < 32 := hlt bit List.mem_cons_self
      have hlt' : ∀ b ∈ bits, b < 32 := fun b hb => hlt b (List.mem_cons_of_mem _ hb)
      rw [takeBits, bitMask_eq]
      by_cases hf : f (base + bit) = true
      · have hin : D + base + bit < lim := by
          have h := hlim _ hf
          omega
        have hpos : base + bit ∉ bits.map (base + ·) := by
          intro hmem
          obtain ⟨b, hb, hbeq⟩ := List.mem_map.mp hmem
          have : b = bit := by omega
          exact hnot (this ▸ hb)
        have hlen : (allocated ++ [D + base + bit]).length = allocated.length + 1 := by simp
        have hassoc : D + base + bit = D + (base + bit) := Nat.add_assoc _ _ _
        have hfilter : (List.map (base + ·) (bit :: bits)).filter f =
            (base + bit) :: (bits.map (base + ·)).filter f := by
          rw [List.map_cons, List.filter_cons_of_pos hf]
        rw [if_pos ((and_mask_ne_zero hbit).mpr hf)]
        simp only []
        rw [if_neg (by omega), if_neg (by omega), if_neg (by omega), hlen, word_and_not_mask, hfilter]
        by_cases hdone : allocated.length + 1 = count
        · -- the last block that was missing
          have htaken : taken count allocated.length
              ((base + bit) :: (bits.map (base + ·)).filter f) = [base + bit] := by
            have hone : count - allocated.length = 1 := by omega
            rw [taken, if_neg (by omega), hone]
            rfl
          have hend : scanEnd count allocated.length
              ((base + bit) :: (bits.map (base + ·)).filter f) = .done := by
            rw [scanEnd, if_pos]
            simp only [List.length_cons]
            omega
          rw [if_pos hdone, htaken, hend, without_cons, without_nil, hassoc]
          rfl
        · have hlim' : ∀ r, Function.update f (base + bit) false r → D + r < lim := by
            intro r hr
            by_cases hrp : r = base + bit
            · subst hrp
              simp at hr
            · rw [Function.update_of_ne hrp] at hr
              exact hlim r hr
          have htaken : taken count allocated.length
              ((base + bit) :: (bits.map (base + ·)).filter f) =
              (base + bit) :: taken count (allocated.length + 1)
                ((bits.map (base + ·)).filter f) := by
            unfold taken
            split
            · rfl
            · have hsucc : count - allocated.length = (count - (allocated.length + 1)) + 1 := by
                omega
              rw [hsucc, List.take_succ_cons]
          have hend : scanEnd count allocated.length
              ((base + bit) :: (bits.map (base + ·)).filter f) =
              scanEnd count (allocated.length + 1) ((bits.map (base + ·)).filter f) := by
            unfold scanEnd
            rw [List.length_cons, Nat.add_assoc, Nat.add_comm 1]
          rw [if_neg hdone, ih _ _ hnd hlt' hlim' (by rw [hlen]; omega), filter_update hpos, hlen,
            htaken, hend, without_cons, List.map_cons, List.append_assoc, hassoc]
          rfl
      · have hfalse : f (base + bit) = false := by simpa using hf
        have hfilter : (List.map (base + ·) (bit :: bits)).filter f =
            (bits.map (base + ·)).filter f := by
          rw [List.map_cons, List.filter_cons_of_neg hf]
        rw [if_neg (fun h => hf ((and_mask_ne_zero hbit).mp h)), hfilter,
          ih f allocated hnd hlt' hlim hcount]

theorem taken_append_of_done {have_ : ℕ} {c₁ : List ℕ} (c₂ : List ℕ)
    (h : scanEnd count have_ c₁ = .done) :
    taken count have_ (c₁ ++ c₂) = taken count have_ c₁ ∧
      scanEnd count have_ (c₁ ++ c₂) = .done := by
  have hcond : 0 < count ∧ count ≤ have_ + c₁.length := by
    by_contra hno
    rw [scanEnd, if_neg hno] at h
    cases h
  constructor
  · rw [taken, taken, if_neg (by omega), if_neg (by omega),
      List.take_append_of_le_length (by omega)]
  · rw [scanEnd, if_pos]
    rw [List.length_append]
    omega

theorem taken_append_of_more {have_ : ℕ} {c₁ : List ℕ} (c₂ : List ℕ)
    (h : scanEnd count have_ c₁ = .more) :
    taken count have_ c₁ = c₁ ∧
      taken count have_ (c₁ ++ c₂) = c₁ ++ taken count (have_ + c₁.length) c₂ ∧
      scanEnd count have_ (c₁ ++ c₂) = scanEnd count (have_ + c₁.length) c₂ := by
  have hcond : ¬ (0 < count ∧ count ≤ have_ + c₁.length) := by
    intro hyes
    rw [scanEnd, if_pos hyes] at h
    cases h
  refine ⟨?_, ?_, ?_⟩
  · unfold taken
    split
    · rfl
    · rw [List.take_of_length_le (by omega)]
  · unfold taken
    split
    · rfl
    · rw [List.take_append, List.take_of_length_le (by omega)]
      congr 2
      omega
  · unfold scanEnd
    rw [List.length_append, Nat.add_assoc]

theorem mem_taken {have_ : ℕ} {c : List ℕ} {r : ℕ} (h : r ∈ taken count have_ c) : r ∈ c := by
  unfold taken at h
  split at h
  · exact h
  · exact List.mem_of_mem_take h

theorem scanEnd_cases (have_ : ℕ) (c : List ℕ) :
    scanEnd count have_ c = .done ∨ scanEnd count have_ c = .more := by
  unfold scanEnd
  split
  · exact Or.inl rfl
  · exact Or.inr rfl

/-- A run of words. -/
theorem takeLongs_words (hU : lim < U32) : ∀ (n base : ℕ) (f : ℕ → Bool) (allocated : List ℕ),
      (∀ r, f r → D + r < lim) → (allocated.length < count ∨ count = 0) →
      takeLongs count lim (D + base) (words f base n) allocated =
        (words (without f (taken count allocated.length
            ((List.range' base (32 * n)).filter f))) base n,
          allocated ++ (taken count allocated.length
            ((List.range' base (32 * n)).filter f)).map (D + ·),
          scanEnd count allocated.length ((List.range' base (32 * n)).filter f)) := by
  intro n
  induction n with
  | zero =>
      intro base f allocated _ hcount
      have htaken : taken count allocated.length [] = [] := by
        unfold taken
        split <;> simp
      have hend : scanEnd count allocated.length [] = .more := by
        rw [scanEnd, if_neg]
        simp only [List.length_nil]
        omega
      have hrange : List.range' base (32 * 0) = [] := rfl
      rw [hrange, List.filter_nil, htaken, hend]
      simp only [words_zero, takeLongs, List.map_nil, List.append_nil]
  | succ n ih =>
      intro base f allocated hlim hcount
      have hrange : List.range' base (32 * (n + 1)) =
          List.range' base 32 ++ List.range' (base + 32) (32 * n) := by
        have hadd : 32 * (n + 1) = 32 + 32 * n := by omega
        rw [hadd, List.range'_append_1]
      have hbits : (List.range 32).map (base + ·) = List.range' base 32 :=
        (List.range'_eq_map_range).symm
      have hassoc : D + base + 32 = D + (base + 32) := Nat.add_assoc _ _ _
      have hlow : ∀ r ∈ (List.range' base 32).filter f, r < base + 32 := by
        intro r hr
        have h := List.mem_range'_1.mp (List.mem_of_mem_filter hr)
        omega
      have hhigh : ∀ r ∈ (List.range' (base + 32) (32 * n)).filter f, base + 32 ≤ r := by
        intro r hr
        have h := List.mem_range'_1.mp (List.mem_of_mem_filter hr)
        omega
      rw [words_succ, takeLongs, hrange, List.filter_append]
      by_cases hzero : word f base = 0
      · have hnil : (List.range' base 32).filter f = [] := by
          rw [List.filter_eq_nil_iff]
          intro r hr
          obtain ⟨hge, hlt⟩ := List.mem_range'_1.mp hr
          have h := word_eq_zero.mp hzero (r - base) (by omega)
          have hr' : base + (r - base) = r := by omega
          rw [hr'] at h
          simp [h]
        rw [if_pos hzero, hassoc, ih _ _ _ hlim hcount, hnil, List.nil_append, words_succ]
        have hword : word f base = word (without f (taken count allocated.length
            ((List.range' (base + 32) (32 * n)).filter f))) base := by
          apply word_congr
          intro i hi
          have h := word_eq_zero.mp hzero i hi
          simp [without, h]
        rw [← hword]
      · rw [if_neg hzero, takeBits_word hU base (List.range 32) f allocated List.nodup_range
          (fun b hb => List.mem_range.mp hb) hlim hcount, hbits]
        rcases @scanEnd_cases count allocated.length ((List.range' base 32).filter f) with
          hend | hend
        · obtain ⟨htake, hend'⟩ := taken_append_of_done
            ((List.range' (base + 32) (32 * n)).filter f) hend
          rw [htake, hend', hend, words_succ]
          have hrest : words f (base + 32) n = words (without f (taken count allocated.length
              ((List.range' base 32).filter f))) (base + 32) n := by
            apply words_congr
            intro i hi
            have hnot : base + 32 + i ∉ taken count allocated.length
                ((List.range' base 32).filter f) := by
              intro hmem
              have h := hlow _ (mem_taken hmem)
              omega
            simp [without, hnot]
          rw [← hrest]
        · obtain ⟨hall, htake, hend'⟩ := taken_append_of_more
            ((List.range' (base + 32) (32 * n)).filter f) hend
          have hlen : (allocated ++ ((List.range' base 32).filter f).map (D + ·)).length =
              allocated.length + ((List.range' base 32).filter f).length := by
            simp
          have hcount' : (allocated ++ ((List.range' base 32).filter f).map (D + ·)).length < count
              ∨ count = 0 := by
            have hno : ¬ (0 < count ∧
                count ≤ allocated.length + ((List.range' base 32).filter f).length) := by
              intro hyes
              rw [scanEnd, if_pos hyes] at hend
              cases hend
            omega
          rw [hend, hall, htake, hend', words_succ]
          simp only []
          rw [hassoc, ih _ _ _ hlim hcount', hlen, without_append, List.map_append,
            List.append_assoc]
          generalize hc₂ : (List.range' (base + 32) (32 * n)).filter f = c₂
          generalize ht₂ : taken count
            (allocated.length + ((List.range' base 32).filter f).length) c₂ = t₂
          have hhigh' : ∀ r ∈ t₂, base + 32 ≤ r := by
            intro r hr
            apply hhigh
            rw [hc₂]
            rw [← ht₂] at hr
            exact mem_taken hr
          have hword : word (without f ((List.range' base 32).filter f)) base =
              word (without (without f ((List.range' base 32).filter f)) t₂) base := by
            apply word_congr
            intro i hi
            have hnot : base + i ∉ t₂ := fun hmem => by
              have h := hhigh' _ hmem
              omega
            rw [without.eq_1 (without f _) t₂]
            simp [hnot]
          have hwords : words (without f t₂) (base + 32) n =
              words (without (without f ((List.range' base 32).filter f)) t₂) (base + 32) n := by
            apply words_congr
            intro i hi
            have hnot : base + 32 + i ∉ (List.range' base 32).filter f := fun hmem => by
              have h := hlow _ hmem
              omega
            simp only [without, hnot, not_false_eq_true, decide_true, Bool.and_true]
          rw [← hword, ← hwords]

end

end Writer

end Pfs3
