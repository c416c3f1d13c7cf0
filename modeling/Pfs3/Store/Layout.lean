import Pfs3.Model.Format
import Pfs3.Store.Rep

/-!
# Layout of a fresh volume

The formatter's allocator hands out the reserved blocks behind the rootblock cluster one
after the other, so a format that succeeds has the layout of a `Geometry`.
-/

namespace Pfs3

open ByteList Stop

namespace Format

/-! ## The reserved block allocator -/

/-- The allocator once the blocks before `k` are taken. -/
def allocatorAt (n k : ℕ) : ReservedAllocator where
  bitmap := (List.range n).map fun i => decide (k ≤ i)
  numreserved := n
  roving := k % n

theorem getD_allocatorAt (n k i : ℕ) :
    (allocatorAt n k).bitmap.getD i false = (decide (i < n) && decide (k ≤ i)) := by
  unfold allocatorAt
  rw [List.getD_eq_getElem?_getD, List.getElem?_map]
  by_cases hi : i < n
  · simp [hi]
  · rw [List.getElem?_eq_none (by simpa using hi)]
    simp [hi]

theorem alloc_allocatorAt {n k : ℕ} (h : k < n) :
    (allocatorAt n k).alloc = .ok (k, allocatorAt n (k + 1)) := by
  have hmod : k % n = k := Nat.mod_eq_of_lt h
  have hzero : (allocatorAt n k).bitmap.getD (((allocatorAt n k).roving + 0) %
      (allocatorAt n k).numreserved) false = true := by
    rw [getD_allocatorAt]
    simp [allocatorAt, hmod, h]
  have hfind : (List.range (allocatorAt n k).numreserved).find? (fun i =>
      (allocatorAt n k).bitmap.getD (((allocatorAt n k).roving + i) %
        (allocatorAt n k).numreserved) false) = some 0 := by
    obtain ⟨m, hm⟩ : ∃ m, n = m + 1 := ⟨n - 1, by omega⟩
    have hrange : List.range (allocatorAt n k).numreserved =
        0 :: (List.range m).map Nat.succ := by
      rw [← List.range_succ_eq_map, ← hm]
      rfl
    rw [hrange, List.find?_cons, hzero]
  unfold ReservedAllocator.alloc
  rw [hfind]
  have hidx : ((allocatorAt n k).roving + 0) % (allocatorAt n k).numreserved = k := by
    simp [allocatorAt, hmod]
  have hset : (allocatorAt n k).bitmap.set k false = (allocatorAt n (k + 1)).bitmap := by
    apply List.ext_getElem (by simp [allocatorAt])
    intro i hi hi'
    have hin : i < n := by simpa [allocatorAt] using hi'
    rw [List.getElem_set]
    simp only [allocatorAt, List.getElem_map, List.getElem_range]
    by_cases hki : k = i
    · simp [hki]
    · have hiff : k ≤ i ↔ k + 1 ≤ i := by omega
      simp [hki, hiff]
  simp only [hidx, hset]
  rfl

theorem alloc_allocatorAt_full {n k : ℕ} (h : n ≤ k) :
    (allocatorAt n k).alloc = .error (.err (.diskFull "out of reserved blocks")) := by
  have hfind : (List.range (allocatorAt n k).numreserved).find? (fun i =>
      (allocatorAt n k).bitmap.getD (((allocatorAt n k).roving + i) %
        (allocatorAt n k).numreserved) false) = none := by
    rw [List.find?_eq_none]
    intro i _
    rw [getD_allocatorAt]
    simp only [Bool.and_eq_true, decide_eq_true_eq, not_and, Nat.not_le]
    intro hlt
    omega
  unfold ReservedAllocator.alloc
  rw [hfind]

/-- An allocation that succeeds hands out the next block. -/
theorem of_alloc {n k idx : ℕ} {a : ReservedAllocator} (h : (allocatorAt n k).alloc = .ok (idx, a)) :
    idx = k ∧ a = allocatorAt n (k + 1) ∧ k < n := by
  by_cases hk : k < n
  · rw [alloc_allocatorAt hk] at h
    cases h
    exact ⟨rfl, rfl, hk⟩
  · rw [alloc_allocatorAt_full (Nat.le_of_not_lt hk)] at h
    cases h

theorem of_allocMany {n : ℕ} (m : ℕ) : ∀ {k : ℕ} {idxs : List ℕ} {a : ReservedAllocator},
    (allocatorAt n k).allocMany m = .ok (idxs, a) →
    idxs = List.range' k m ∧ a = allocatorAt n (k + m) ∧ (0 < m → k + m ≤ n) := by
  induction m with
  | zero =>
      intro k idxs a h
      cases h
      exact ⟨rfl, rfl, fun h => absurd h (lt_irrefl 0)⟩
  | succ m ih =>
      intro k idxs a h
      rw [ReservedAllocator.allocMany] at h
      obtain ⟨⟨idx, b⟩, hb, h⟩ := of_bind_ok h
      obtain ⟨rfl, rfl, hk⟩ := of_alloc hb
      obtain ⟨⟨rest, c⟩, hc, h⟩ := of_bind_ok h
      obtain ⟨rfl, rfl, hm⟩ := ih hc
      cases h
      refine ⟨rfl, by rw [Nat.add_assoc, Nat.add_comm 1 m], fun _ => ?_⟩
      rcases Nat.eq_zero_or_pos m with rfl | hpos
      · omega
      · have := hm hpos
        omega

theorem new_eq {n r : ℕ} (h : r < n) : ReservedAllocator.new n r = allocatorAt n r := by
  simp [ReservedAllocator.new, allocatorAt, Nat.mod_eq_of_lt h]

/-- The first allocation succeeds only with room behind the cluster. -/
theorem of_alloc_new {n r idx : ℕ} {a : ReservedAllocator}
    (h : (ReservedAllocator.new n r).alloc = .ok (idx, a)) :
    idx = r ∧ a = allocatorAt n (r + 1) ∧ r < n := by
  by_cases hr : r < n
  · rw [new_eq hr] at h
    exact of_alloc h
  · have hfind : (List.range (ReservedAllocator.new n r).numreserved).find? (fun i =>
        (ReservedAllocator.new n r).bitmap.getD (((ReservedAllocator.new n r).roving + i) %
          (ReservedAllocator.new n r).numreserved) false) = none := by
      rw [List.find?_eq_none]
      intro i _
      have hb : (ReservedAllocator.new n r).bitmap = (allocatorAt n r).bitmap := rfl
      rw [hb, getD_allocatorAt]
      simp only [Bool.and_eq_true, decide_eq_true_eq, not_and, Nat.not_le]
      intro hlt
      omega
    unfold ReservedAllocator.alloc at h
    rw [hfind] at h
    cases h

theorem freeCount_allocatorAt {n k : ℕ} (h : k ≤ n) : (allocatorAt n k).freeCount = n - k := by
  obtain ⟨d, rfl⟩ : ∃ d, n = k + d := ⟨n - k, by omega⟩
  have hfirst : ((List.range k).map fun i => decide (k ≤ i)).count true = 0 := by
    rw [List.count_eq_zero]
    intro hmem
    obtain ⟨i, hi, hd⟩ := List.mem_map.mp hmem
    have hlt := List.mem_range.mp hi
    simp only [decide_eq_true_eq] at hd
    omega
  have hrest : ((List.range d).map fun i => decide (k ≤ k + i)).count true = d := by
    have hall : ((List.range d).map fun i => decide (k ≤ k + i)) = List.replicate d true := by
      apply List.ext_getElem (by simp)
      intro i hi hi'
      simp
    rw [hall, List.count_replicate_self]
  unfold ReservedAllocator.freeCount allocatorAt
  rw [List.range_add, List.map_append, List.count_append, hfirst, List.map_map]
  have hcomp : ((fun i => decide (k ≤ i)) ∘ fun x => k + x) = fun i => decide (k ≤ k + i) := rfl
  rw [hcomp, hrest]
  omega

/-- The words of the reserved bitmap that the formatter writes. -/
theorem bitmapWord_allocatorAt (n k i : ℕ) :
    (allocatorAt n k).bitmapWord i =
      BitRun.word (fun j => decide (k ≤ j) && decide (j < n)) i := by
  refine BitRun.word_ext fun j hj => ?_
  have hfold : ∀ (m : ℕ), m ≤ 32 → ((List.range m).foldl (fun val bit =>
      if i + bit < n ∧ (allocatorAt n k).bitmap.getD (i + bit) false
      then val ||| Writer.bitMask bit else val) (0 : BitVec 32)).getMsbD j =
      (decide (j < m) && (decide (k ≤ i + j) && decide (i + j < n))) := by
    intro m
    induction m with
    | zero => simp
    | succ m ih =>
        intro hm
        rw [List.range_succ, List.foldl_append, List.foldl_cons, List.foldl_nil]
        have hmask : (Writer.bitMask m).getMsbD j = decide (j = m) := BitRun.getMsbD_mask hj
        rw [getD_allocatorAt]
        split
        · rename_i hset
          simp only [Bool.and_eq_true, decide_eq_true_eq] at hset
          rw [BitVec.getMsbD_or, ih (by omega), hmask]
          by_cases hjm : j = m
          · subst hjm
            simp [hset.2.1, hset.2.2]
          · have hiff : j < m ↔ j < m + 1 := by omega
            simp [hjm, hiff]
        · rename_i hset
          simp only [Bool.and_eq_true, decide_eq_true_eq] at hset
          rw [ih (by omega)]
          by_cases hjm : j = m
          · subst hjm
            by_cases hlt : i + j < n
            · have hk : ¬ k ≤ i + j := fun h => hset ⟨hlt, hlt, h⟩
              simp [hk]
            · simp [hlt]
          · have hiff : j < m ↔ j < m + 1 := by omega
            simp [hiff]
  refine Eq.trans (hfold 32 le_rfl) ?_
  simp [hj]

end Format

end Pfs3
