import Pfs3.Blocks.Anodes
import Pfs3.Store.Counts
import Pfs3.Store.VolumeName

/-!
# The reserved allocator

The writer takes the words of the reserved bitmap from the rootblock cluster, one word more than
the reserved blocks need when their number is a multiple of 32, and hands out a block for every set
bit.  So what stands behind the bits of the reserved blocks decides whether it stays in its area,
and whether it can hand out as many blocks as the reader counts.
-/

namespace Pfs3

open ByteList Stop

namespace Writer

variable {w w' : Writer}

/-! ## One call -/

theorem isFree_of_getElem? {k : ℕ} {long : BitVec 32} (h : w.resBitmap[k / 32]? = some long) :
    w.isFree k = long.getMsbD (k % 32) := by
  rw [isFree, List.getD_eq_getElem?_getD, h, Option.getD_some]

/-- Behind the last word no block is free. -/
theorem isFree_lt {k : ℕ} (h : w.isFree k = true) : k < 32 * w.resBitmap.length := by
  by_contra hge
  have hnone : w.resBitmap[k / 32]? = none := List.getElem?_eq_none (by omega)
  rw [isFree, List.getD_eq_getElem?_getD, hnone, Option.getD_none] at h
  simp at h

theorem firstBit_eq_none {long : BitVec 32} (h : firstBit long = none) {bit : ℕ} (hbit : bit < 32) :
    long.getMsbD bit = false := by
  have hzero := List.find?_eq_none.1 h bit (List.mem_range.2 hbit)
  rw [← Bool.not_eq_true, ← and_bitMask_ne_zero hbit]
  simpa using hzero

theorem firstFree_eq_none (words : List (BitVec 32)) : ∀ {li : ℕ}, firstFree li words = none →
    ∀ long ∈ words, ∀ bit < 32, long.getMsbD bit = false := by
  induction words with
  | nil => exact fun _ long hlong => absurd hlong List.not_mem_nil
  | cons word words ih =>
      intro li h long hlong bit hbit
      have hrest : firstFree (li + 1) words = none ∧ word.getMsbD bit = false := by
        rw [firstFree] at h
        split at h
        · rename_i hzero
          rw [hzero]
          exact ⟨h, by simp⟩
        · split at h
          · cases h
          · rename_i hnone
            exact ⟨h, firstBit_eq_none hnone hbit⟩
      rcases List.mem_cons.1 hlong with rfl | hlong
      · exact hrest.2
      · exact ih hrest.1 long hlong bit hbit

/-- The call marks block `k` as free or as used, sets the counter to `n` and keeps the geometry. -/
structure Marks (w w' : Writer) (k : ℕ) (free : Bool) (n : ℕ) : Prop where
  isFree : w'.isFree = Function.update w.isFree k free
  counter : w'.vol.rootblock.reservedFree = n
  firstreserved : w'.firstreserved = w.firstreserved
  rescluster : w'.rescluster = w.rescluster
  length : w'.resBitmap.length = w.resBitmap.length

/-- With no block free the disk is full. -/
theorem allocReservedBlock_full (h : ∀ k, w.isFree k = false) :
    allocReservedBlock w = .error (.err (.diskFull "out of reserved blocks")) w := by
  have hnone : firstFree 0 w.resBitmap = none := by
    cases hfirst : firstFree 0 w.resBitmap with
    | none => rfl
    | some found =>
        obtain ⟨li, bit⟩ := found
        obtain ⟨i, long, rfl, hget, hbit, hset⟩ := of_firstFree _ hfirst
        have hk := h (i * 32 + bit)
        have hlong : w.resBitmap[(i * 32 + bit) / 32]? = some long := by
          rw [show (i * 32 + bit) / 32 = i by omega]
          exact hget
        rw [isFree_of_getElem? hlong, show (i * 32 + bit) % 32 = bit by omega, hset] at hk
        cases hk
  unfold allocReservedBlock
  rw [bind_of_ok (rfl : (get : WriterM Writer) w = .ok w w), hnone]
  rfl

/-- A free block is handed out if the counter and its number allow it. -/
theorem allocReservedBlock_free (h : ∃ k, w.isFree k = true) :
    ∃ k, w.isFree k = true ∧
      ((0 < w.vol.rootblock.reservedFree ∧ w.firstreserved + k * w.rescluster < U32 ∧
          ∃ w', allocReservedBlock w = .ok (w.firstreserved + k * w.rescluster) w' ∧
            Marks w w' k false (w.vol.rootblock.reservedFree - 1)) ∨
        ¬ (0 < w.vol.rootblock.reservedFree ∧ w.firstreserved + k * w.rescluster < U32) ∧
          ∃ w', allocReservedBlock w = .error .panic w') := by
  cases hfirst : firstFree 0 w.resBitmap with
  | none =>
      obtain ⟨k, hk⟩ := h
      have hlt := isFree_lt hk
      obtain ⟨long, hget⟩ : ∃ long, w.resBitmap[k / 32]? = some long :=
        ⟨_, List.getElem?_eq_getElem (by omega)⟩
      rw [isFree_of_getElem? hget, firstFree_eq_none _ hfirst _ (List.mem_of_getElem? hget) _
        (Nat.mod_lt _ (by decide))] at hk
      cases hk
  | some found =>
      obtain ⟨li, bit⟩ := found
      obtain ⟨i, long, hli, hget, hbit, hset⟩ := of_firstFree _ hfirst
      obtain rfl : li = i := by omega
      refine ⟨li * 32 + bit, ?_, ?_⟩
      · have hlong : w.resBitmap[(li * 32 + bit) / 32]? = some long := by
          rw [show (li * 32 + bit) / 32 = li by omega]
          exact hget
        rw [isFree_of_getElem? hlong, show (li * 32 + bit) % 32 = bit by omega, hset]
      · have hmarks := @isFree_clear w li bit long
          (fun v => { v with rootblock :=
            { v.rootblock with reservedFree := w.vol.rootblock.reservedFree - 1 } }) hget hbit
        have hstate : ∀ (s : Writer) (next : PUnit → WriterM ℕ),
            ((set s : WriterM PUnit) >>= next) w = next ⟨⟩ s := fun _ _ => rfl
        unfold allocReservedBlock
        rw [bind_of_ok (rfl : (get : WriterM Writer) w = .ok w w), hfirst]
        dsimp only
        rw [hstate]
        by_cases hpos : 0 < w.vol.rootblock.reservedFree
        · have hsub : subU32 w.vol.rootblock.reservedFree 1 =
              .ok (w.vol.rootblock.reservedFree - 1) := if_pos hpos
          rw [bind_of_ok (lift_of_ok hsub _),
            bind_of_ok (rfl : setReservedFree (w.vol.rootblock.reservedFree - 1) _ = .ok _ _)]
          by_cases hlt : w.firstreserved + (li * 32 + bit) * w.rescluster < U32
          · exact Or.inl ⟨hpos, hlt, _, lift_of_ok (if_pos hlt) _,
              ⟨hmarks, rfl, rfl, rfl, List.length_modify ..⟩⟩
          · exact Or.inr ⟨fun hboth => hlt hboth.2, _, lift_of_error (if_neg hlt) _⟩
        · have hsub : subU32 w.vol.rootblock.reservedFree 1 = .error .panic := if_neg hpos
          rw [bind_of_error (lift_of_error hsub _)]
          exact Or.inr ⟨fun hboth => hpos hboth.1, _, rfl⟩

theorem isFree_set {k : ℕ} {u : Volume → Volume} (hk : k / 32 < w.resBitmap.length) :
    isFree { w with
      vol := u w.vol
      resBitmap := w.resBitmap.modify (k / 32) fun l => l ||| bitMask (k % 32) } =
      Function.update w.isFree k true := by
  funext j
  have hlow : j % 32 < 32 := Nat.mod_lt _ (by decide)
  unfold isFree
  dsimp only
  rw [List.getD_eq_getElem?_getD, List.getElem?_modify, Option.map_eq_map]
  by_cases hword : k / 32 = j / 32
  · obtain ⟨long, hget⟩ : ∃ long, w.resBitmap[j / 32]? = some long :=
      ⟨_, List.getElem?_eq_getElem (by omega)⟩
    rw [hget, Option.map_some, Option.getD_some, if_pos hword, getMsbD_or_bitMask hlow]
    by_cases hj : j = k
    · subst hj
      rw [Function.update_self, decide_eq_true rfl, Bool.or_true]
    · rw [Function.update_of_ne hj, decide_eq_false (by omega), Bool.or_false,
        List.getD_eq_getElem?_getD, hget, Option.getD_some]
  · rw [Function.update_of_ne (by rintro rfl; exact hword rfl), List.getD_eq_getElem?_getD]
    cases w.resBitmap[j / 32]? with
    | none => rfl
    | some l =>
        rw [Option.map_some, Option.getD_some, if_neg hword]
        rfl

/-- A block that is given back is free again, if the word with its bit was loaded. -/
theorem freeReservedBlock_ok {blk : ℕ} (h : freeReservedBlock blk w = .ok () w') :
    w.firstreserved ≤ blk ∧
      (w' = w ∨ ∃ n, Marks w w' ((blk - w.firstreserved) / w.rescluster) true n) := by
  have hstate : ∀ (s : Writer) (next : PUnit → WriterM Unit),
      ((set s : WriterM PUnit) >>= next) w = next ⟨⟩ s := fun _ _ => rfl
  unfold freeReservedBlock at h
  rw [bind_of_ok (rfl : (get : WriterM Writer) w = .ok w w)] at h
  obtain ⟨rel, w₁, hsub, h⟩ := of_bind_eq_ok h
  obtain ⟨hsub, rfl⟩ := Format.of_lift_ok hsub
  unfold subU32 at hsub
  split at hsub
  · rename_i hle
    cases hsub
    refine ⟨hle, ?_⟩
    split at h
    · cases h
    · dsimp only at h
      split at h
      · rename_i hlt
        rw [hstate] at h
        obtain ⟨n, w₂, hadd, h⟩ := of_bind_eq_ok h
        obtain ⟨-, rfl⟩ := Format.of_lift_ok hadd
        cases h
        exact Or.inr ⟨n, isFree_set
          (u := fun v => { v with rootblock := { v.rootblock with reservedFree := n } }) hlt,
          rfl, rfl, rfl, List.length_modify ..⟩
      · cases h
        exact Or.inl rfl
  · cases hsub

theorem allocReservedBlock_ok {blk : ℕ} (h : allocReservedBlock w = .ok blk w') :
    ∃ k, w.isFree k = true ∧ blk = w.firstreserved + k * w.rescluster ∧
      0 < w.vol.rootblock.reservedFree ∧
      Marks w w' k false (w.vol.rootblock.reservedFree - 1) := by
  by_cases hfree : ∃ k, w.isFree k = true
  · obtain ⟨k, hk, ⟨hpos, -, w₁, hrun, hmarks⟩ | ⟨-, w₁, hrun⟩⟩ := allocReservedBlock_free hfree
    · rw [hrun] at h
      cases h
      exact ⟨k, hk, rfl, hpos, hmarks⟩
    · rw [hrun] at h
      cases h
  · rw [allocReservedBlock_full fun k => by simpa using fun hk => hfree ⟨k, hk⟩] at h
    cases h

/-- A call that returns an error leaves the writer as it was. -/
theorem allocReservedBlock_err {e : Error} (h : allocReservedBlock w = .error (.err e) w') :
    w' = w ∧ ∀ k, w.isFree k = false := by
  by_cases hfree : ∃ k, w.isFree k = true
  · obtain ⟨k, hk, ⟨-, -, w₁, hrun, hmarks⟩ | ⟨-, w₁, hrun⟩⟩ := allocReservedBlock_free hfree
    · rw [hrun] at h
      cases h
    · rw [hrun] at h
      cases h
  · have hnone : ∀ k, w.isFree k = false := fun k => by simpa using fun hk => hfree ⟨k, hk⟩
    rw [allocReservedBlock_full hnone] at h
    cases h
    exact ⟨rfl, hnone⟩

/-! ## Runs -/

/-- A block that a call of a run has returned or was given back. -/
inductive Event
  | returned (blk : ℕ)
  | freed (blk : ℕ)

/-- The runs of the two calls from `w₀` in which every block given back lies in the reserved area,
with the events so far, the latest first. -/
inductive AreaRun (w₀ : Writer) : List Event → Writer → Prop
  | start : AreaRun w₀ [] w₀
  | alloc {h : List Event} {w w' : Writer} {blk : ℕ} (run : AreaRun w₀ h w)
      (call : allocReservedBlock w = .ok blk w') : AreaRun w₀ (.returned blk :: h) w'
  | full {h : List Event} {w w' : Writer} {e : Error} (run : AreaRun w₀ h w)
      (call : allocReservedBlock w = .error (.err e) w') : AreaRun w₀ h w'
  | free {h : List Event} {w w' : Writer} {blk : ℕ} (run : AreaRun w₀ h w)
      (inArea : blk < w₀.firstreserved + w₀.numreserved * w₀.rescluster)
      (call : freeReservedBlock blk w = .ok () w') : AreaRun w₀ (.freed blk :: h) w'

/-- Every block that a run returns is one of the reserved blocks and was marked free; if the run has
returned it before, it was given back since. -/
def StaysInArea (w₀ : Writer) : Prop :=
  ∀ h w blk w', AreaRun w₀ h w → allocReservedBlock w = .ok blk w' →
    (∃ k < w₀.numreserved, blk = w₀.firstreserved + k * w₀.rescluster ∧ w.isFree k = true) ∧
    ∀ later earlier, h = later ++ .returned blk :: earlier →
      ∃ b, .freed b ∈ later ∧ blk ≤ b ∧ b < blk + w₀.rescluster

/-- What a run keeps: the free blocks lie in the area, and those it has returned were given back. -/
structure Tracks (w₀ : Writer) (h : List Event) (w : Writer) : Prop where
  firstreserved : w.firstreserved = w₀.firstreserved
  rescluster : w.rescluster = w₀.rescluster
  inArea : ∀ k, w.isFree k = true → k < w₀.numreserved
  freed : ∀ k later earlier, w.isFree k = true →
    h = later ++ .returned (w₀.firstreserved + k * w₀.rescluster) :: earlier →
    ∃ b, .freed b ∈ later ∧ w₀.firstreserved + k * w₀.rescluster ≤ b ∧
      b < w₀.firstreserved + k * w₀.rescluster + w₀.rescluster

section Tracks

variable {w₀ : Writer} {h : List Event} {blk k n : ℕ}

theorem Tracks.alloc (ht : Tracks w₀ h w) (hpos : 0 < w₀.rescluster)
    (hm : Marks w w' k false n) :
    Tracks w₀ (.returned (w₀.firstreserved + k * w₀.rescluster) :: h) w' := by
  have hfree : ∀ i, w'.isFree i = true → i ≠ k ∧ w.isFree i = true := by
    intro i hi
    rw [hm.isFree] at hi
    by_cases hik : i = k
    · rw [hik, Function.update_self] at hi
      cases hi
    · rw [Function.update_of_ne hik] at hi
      exact ⟨hik, hi⟩
  refine ⟨hm.firstreserved.trans ht.firstreserved, hm.rescluster.trans ht.rescluster,
    fun i hi => ht.inArea i (hfree i hi).2, fun i later earlier hi heq => ?_⟩
  obtain ⟨hne, hi⟩ := hfree i hi
  cases later with
  | nil =>
      injection heq with heq
      injection heq with heq
      have hmul : k * w₀.rescluster = i * w₀.rescluster := by omega
      exact absurd (Nat.eq_of_mul_eq_mul_right hpos hmul).symm hne
  | cons event later =>
      injection heq with hevent heq
      obtain ⟨b, hb, hle, hlt⟩ := ht.freed i later earlier hi heq
      exact ⟨b, List.mem_cons_of_mem _ hb, hle, hlt⟩

/-- A block given back whose bit was not loaded. -/
theorem Tracks.ignored (ht : Tracks w₀ h w) : Tracks w₀ (.freed blk :: h) w := by
  refine ⟨ht.firstreserved, ht.rescluster, ht.inArea, fun i later earlier hi heq => ?_⟩
  cases later with
  | nil => cases heq
  | cons event later =>
      injection heq with hevent heq
      obtain ⟨b, hb, hle, hlt⟩ := ht.freed i later earlier hi heq
      exact ⟨b, List.mem_cons_of_mem _ hb, hle, hlt⟩

theorem Tracks.free (ht : Tracks w₀ h w) (hpos : 0 < w₀.rescluster)
    (hle : w.firstreserved ≤ blk)
    (hlt : blk < w₀.firstreserved + w₀.numreserved * w₀.rescluster)
    (hm : Marks w w' ((blk - w.firstreserved) / w.rescluster) true n) :
    Tracks w₀ (.freed blk :: h) w' := by
  have hfirst := ht.firstreserved
  have hdiv := Nat.div_mul_le_self (blk - w.firstreserved) w.rescluster
  have hmod := Nat.lt_div_mul_add (a := blk - w.firstreserved) (ht.rescluster ▸ hpos)
  rw [ht.rescluster] at hm hdiv hmod
  have hfree : ∀ i, w'.isFree i = true →
      i = (blk - w.firstreserved) / w₀.rescluster ∨ w.isFree i = true := by
    intro i hi
    rw [hm.isFree] at hi
    by_cases hik : i = (blk - w.firstreserved) / w₀.rescluster
    · exact Or.inl hik
    · rw [Function.update_of_ne hik] at hi
      exact Or.inr hi
  refine ⟨hm.firstreserved.trans hfirst, hm.rescluster.trans ht.rescluster, fun i hi => ?_,
    fun i later earlier hi heq => ?_⟩
  · rcases hfree i hi with rfl | hi
    · rw [Nat.div_lt_iff_lt_mul hpos]
      omega
    · exact ht.inArea i hi
  · cases later with
    | nil => cases heq
    | cons event later =>
        injection heq with hevent heq
        rcases hfree i hi with rfl | hi
        · exact ⟨blk, by rw [← hevent]; exact List.mem_cons_self, by omega, by omega⟩
        · obtain ⟨b, hb, hle, hlt⟩ := ht.freed i later earlier hi heq
          exact ⟨b, List.mem_cons_of_mem _ hb, hle, hlt⟩

/-- One call keeps it, so a whole run does. -/
theorem AreaRun.tracks (hpos : 0 < w₀.rescluster)
    (hstart : ∀ k, w₀.isFree k = true → k < w₀.numreserved) (hrun : AreaRun w₀ h w) :
    Tracks w₀ h w := by
  induction hrun with
  | start =>
      refine ⟨rfl, rfl, hstart, fun k later earlier _ heq => ?_⟩
      cases later <;> cases heq
  | alloc _ call ih =>
      obtain ⟨k, -, rfl, -, hm⟩ := allocReservedBlock_ok call
      rw [ih.firstreserved, ih.rescluster]
      exact ih.alloc hpos hm
  | full _ call ih =>
      obtain ⟨rfl, -⟩ := allocReservedBlock_err call
      exact ih
  | free _ inArea call ih =>
      obtain ⟨hle, rfl | ⟨n, hm⟩⟩ := freeReservedBlock_ok call
      · exact ih.ignored
      · exact ih.free hpos hle inArea hm

/-- With the free blocks in the area, every run stays in it. -/
theorem staysInArea_of_free (hpos : 0 < w₀.rescluster)
    (hstart : ∀ k, w₀.isFree k = true → k < w₀.numreserved) : w₀.StaysInArea := by
  intro h w blk w' hrun hcall
  have ht := hrun.tracks hpos hstart
  obtain ⟨k, hk, rfl, -, -⟩ := allocReservedBlock_ok hcall
  rw [ht.firstreserved, ht.rescluster]
  exact ⟨⟨k, ht.inArea k hk, rfl, hk⟩, fun later earlier heq => ht.freed k later earlier hk heq⟩

end Tracks

/-! ## How many blocks there are to hand out -/

/-- Calls in a row return `n` blocks, and the next one an error. -/
def HandsOut : ℕ → Writer → Prop
  | 0, w => ∃ e w', allocReservedBlock w = .error (.err e) w'
  | n + 1, w => ∃ blk w', allocReservedBlock w = .ok blk w' ∧ HandsOut n w'

/-- The set bits of the words that were loaded. -/
def freeCount (w : Writer) : ℕ := BitRun.count w.isFree 0 (32 * w.resBitmap.length)

theorem Marks.freeCount {k n : ℕ} (hm : Marks w w' k false n) (hk : w.isFree k = true) :
    w'.freeCount + 1 = w.freeCount := by
  unfold Writer.freeCount
  rw [hm.isFree, hm.length]
  exact BitRun.count_clear (isFree_lt hk) hk

theorem freeCount_eq_zero (h : ∀ k, w.isFree k = false) : w.freeCount = 0 :=
  BitRun.count_eq_zero fun k _ => h k

theorem HandsOut.count {n : ℕ} : ∀ {w : Writer}, HandsOut n w →
    n = w.freeCount ∧ n ≤ w.vol.rootblock.reservedFree := by
  induction n with
  | zero =>
      rintro w ⟨e, w', hcall⟩
      rw [freeCount_eq_zero (allocReservedBlock_err hcall).2]
      exact ⟨rfl, Nat.zero_le _⟩
  | succ n ih =>
      rintro w ⟨blk, w', hcall, hrest⟩
      obtain ⟨k, hk, -, hpos, hm⟩ := allocReservedBlock_ok hcall
      obtain ⟨hcount, hle⟩ := ih hrest
      have hsucc := hm.freeCount hk
      rw [hm.counter] at hle
      omega

/-- As many as there are free blocks, if the counter and their numbers allow it. -/
theorem handsOut_freeCount {n : ℕ} : ∀ {w : Writer}, w.freeCount = n →
    n ≤ w.vol.rootblock.reservedFree →
    (∀ k, w.isFree k = true → w.firstreserved + k * w.rescluster < U32) → HandsOut n w := by
  induction n with
  | zero =>
      intro w hcount _ _
      refine ⟨_, w, allocReservedBlock_full fun k => ?_⟩
      by_contra hk
      have hpos := BitRun.count_pos (n := 32 * w.resBitmap.length) (Nat.zero_le k)
        (by rw [Nat.zero_add]; exact isFree_lt (by simpa using hk)) (by simpa using hk)
      exact absurd hcount hpos.ne'
  | succ n ih =>
      intro w hcount hle hlt
      have hsome : ∃ k, w.isFree k = true := by
        by_contra hnone
        rw [freeCount_eq_zero fun k => by simpa using fun hk => hnone ⟨k, hk⟩] at hcount
        cases hcount
      obtain ⟨k, hk, ⟨-, -, w', hcall, hm⟩ | ⟨hnot, -⟩⟩ := allocReservedBlock_free hsome
      · have hsucc := hm.freeCount hk
        refine ⟨_, w', hcall, ih (by omega) (by rw [hm.counter]; omega) fun i hi => ?_⟩
        rw [hm.firstreserved, hm.rescluster]
        apply hlt i
        rw [hm.isFree] at hi
        by_cases hik : i = k
        · rw [hik]
          exact hk
        · rwa [Function.update_of_ne hik] at hi
      · exact absurd ⟨by omega, hlt k hk⟩ hnot

/-- Each of the free blocks is among those handed out. -/
theorem HandsOut.returns {w₀ : Writer} {k n : ℕ} : ∀ {w : Writer} {h : List Event},
    AreaRun w₀ h w → HandsOut n w → w.isFree k = true →
    ∃ h' w₁ w₂, AreaRun w₀ h' w₁ ∧
      allocReservedBlock w₁ = .ok (w.firstreserved + k * w.rescluster) w₂ := by
  induction n with
  | zero =>
      rintro w h _ ⟨e, w', hcall⟩ hk
      rw [(allocReservedBlock_err hcall).2 k] at hk
      cases hk
  | succ n ih =>
      rintro w h hrun ⟨blk, w', hcall, hrest⟩ hk
      obtain ⟨i, -, rfl, -, hm⟩ := allocReservedBlock_ok hcall
      by_cases hik : k = i
      · rw [hik]
        exact ⟨h, w, w', hrun, hcall⟩
      · rw [← hm.firstreserved, ← hm.rescluster]
        apply ih (hrun.alloc hcall) hrest
        rwa [hm.isFree, Function.update_of_ne hik]

end Writer

/-! ## The bitmap in the cluster -/

namespace Volume

/-- The words from the start of the reserved bitmap to the end of the rootblock cluster. -/
def reservedWords (v : Volume) : List (BitVec 32) :=
  (beWords ((v.dev.bytesAt v.rootblock.firstreserved v.rootblock.rblkcluster).drop
    (SECTOR_SIZE + 12))).map (BitVec.ofNat 32)

/-- A bit of these words. -/
def reservedBit (v : Volume) (k : ℕ) : Bool := (v.reservedWords.getD (k / 32) 0).getMsbD (k % 32)

/-- The number of whole blocks in the reserved area. -/
def numreserved (v : Volume) : ℕ :=
  (v.rootblock.lastreserved - v.rootblock.firstreserved + 1) /
    (v.rootblock.reservedBlksize / SECTOR_SIZE)

variable {v : Volume}

theorem reservedWords_eq :
    v.reservedWords = BitRun.words v.reservedBit 0 v.reservedWords.length := by
  apply List.ext_getElem (by rw [BitRun.length_words])
  intro i hi hi'
  rw [BitRun.getElem_words]
  apply BitRun.word_ext
  intro j hj
  have hget := List.getElem?_eq_getElem hi
  rw [reservedBit, show (0 + 32 * i + j) / 32 = i by omega,
    show (0 + 32 * i + j) % 32 = j by omega, List.getD_eq_getElem?_getD, hget, Option.getD_some]

theorem reservedBit_of_le {k : ℕ} (h : 32 * v.reservedWords.length ≤ k) :
    v.reservedBit k = false := by
  rw [reservedBit, List.getD_eq_getElem?_getD, List.getElem?_eq_none (by omega), Option.getD_none]
  simp

/-- The reader counts the bits of all the words. -/
theorem answer_reservedCountFree
    (h : v.rootblock.firstreserved + v.rootblock.rblkcluster ≤ v.dev.total) :
    v.answer reservedCountFree =
      .ok (BitRun.count v.reservedBit 0 (32 * v.reservedWords.length)) := by
  have hread := Device.readBlocks_eq_ok.2 ⟨h, rfl⟩
  have hsum : ((beWords ((v.dev.bytesAt v.rootblock.firstreserved
      v.rootblock.rblkcluster).drop (SECTOR_SIZE + 12))).map fun w =>
        BitmapReader.countOnes (BitVec.ofNat 32 w)).sum =
      BitRun.count v.reservedBit 0 (32 * v.reservedWords.length) := by
    rw [← VolRep.countOnes_words, ← reservedWords_eq, reservedWords, List.map_map]
    rfl
  have hrun : reservedCountFree v =
      .ok (BitRun.count v.reservedBit 0 (32 * v.reservedWords.length)) v := by
    unfold reservedCountFree
    rw [bind_of_ok (rfl : (get : VolumeM Volume) v = .ok v v), hread, ← hsum]
    rfl
  rw [answer, hrun]

end Volume

namespace Writer

/-- What opening makes of the reserved area. -/
structure Loaded (v : Volume) (w : Writer) : Prop where
  firstreserved : w.firstreserved = v.rootblock.firstreserved
  numreserved : w.numreserved = v.numreserved
  reservedFree : w.vol.rootblock.reservedFree = v.rootblock.reservedFree
  pos : 0 < w.rescluster
  ends : w.firstreserved + v.numreserved * w.rescluster ≤ U32
  readable : v.rootblock.firstreserved + v.rootblock.rblkcluster ≤ v.dev.total
  bitmap : w.resBitmap = v.reservedWords.take (v.numreserved / 32 + 1)

theorem loaded_of_open {v : Volume} (hv : v.Opened) {clock : ℕ → Datestamp}
    (h : Writer.open v clock = .ok w) : Loaded v w := by
  obtain ⟨w₀, bits, c, bm, hof, hres, rfl, -, -⟩ := of_open hv h
  unfold ofVolume at hof
  dsimp only at hof
  split at hof
  · cases hof
  · rename_i hguard
    cases hof
    unfold loadReservedBitmap at hres
    rw [bind_of_ok (rfl : (get : WriterM Writer) _ = .ok _ _)] at hres
    obtain ⟨cluster, w', hread, hres⟩ := of_bind_eq_ok hres
    obtain ⟨hok, rfl⟩ := Format.of_lift_ok hread
    obtain ⟨htotal, rfl⟩ := Device.readBlocks_eq_ok.1 hok
    injection hres with _ hres
    injection hres with _ _ _ _ _ _ _ _ _ hbits
    have hdiv := Nat.div_mul_le_self (v.rootblock.lastreserved - v.rootblock.firstreserved + 1)
      (v.rootblock.reservedBlksize / SECTOR_SIZE)
    refine ⟨rfl, rfl, rfl, Nat.pos_of_ne_zero fun hzero => hguard (Or.inr (Or.inl hzero)), ?_,
      htotal, ?_⟩
    · simp only [Volume.numreserved]
      omega
    · have hwords : bits = v.reservedWords.take (v.numreserved / 32 + 1) := by
        rw [← hbits, Volume.reservedWords, ← List.map_take]
        rfl
      exact hwords

namespace Loaded

variable {v : Volume}

theorem length_le (h : Loaded v w) : w.resBitmap.length ≤ v.reservedWords.length := by
  rw [h.bitmap]
  exact List.length_take_le' _ _

/-- In the words that were loaded the writer has the bits of the cluster. -/
theorem isFree (h : Loaded v w) {k : ℕ} (hk : k < 32 * w.resBitmap.length) :
    w.isFree k = v.reservedBit k := by
  have hlen : w.resBitmap.length = min (v.numreserved / 32 + 1) v.reservedWords.length := by
    rw [h.bitmap, List.length_take]
  rw [Writer.isFree, Volume.reservedBit, List.getD_eq_getElem?_getD, List.getD_eq_getElem?_getD,
    h.bitmap, List.getElem?_take_of_lt (by omega)]

theorem freeCount (h : Loaded v w) :
    w.freeCount = BitRun.count v.reservedBit 0 (32 * w.resBitmap.length) := by
  refine BitRun.count_congr fun i _ hi => h.isFree ?_
  omega

/-- The reserved blocks have their bits in the words that were loaded, as far as the cluster goes. -/
theorem isFree_of_lt (h : Loaded v w) {k : ℕ} (hk : k < 32 * (v.numreserved / 32 + 1)) :
    w.isFree k = v.reservedBit k := by
  by_cases hlt : k < 32 * w.resBitmap.length
  · exact h.isFree hlt
  · have hlen : w.resBitmap.length = min (v.numreserved / 32 + 1) v.reservedWords.length := by
      rw [h.bitmap, List.length_take]
    rw [v.reservedBit_of_le (by omega), ← Bool.not_eq_true]
    exact fun hfree => hlt (isFree_lt hfree)

/-- Without set bits behind those of the reserved blocks, the words that were loaded have all. -/
theorem count_eq (h : Loaded v w) (hnone : ∀ k, v.numreserved ≤ k → v.reservedBit k = false) :
    BitRun.count v.reservedBit 0 (32 * v.reservedWords.length) = w.freeCount := by
  have hlen := h.length_le
  rw [h.freeCount]
  refine BitRun.count_extend (fun k hk => ?_) (by omega)
  by_cases hlt : k < v.numreserved
  · rw [← h.isFree_of_lt (by omega), ← Bool.not_eq_true]
    exact fun hfree => absurd (isFree_lt hfree) (not_lt.2 hk)
  · exact hnone k (not_lt.1 hlt)

end Loaded

/-- The free reserved blocks, counted over the words of the cluster. -/
theorem count_reservedBit {v : Volume}
    (hnone : ∀ k, v.numreserved ≤ k → v.reservedBit k = false) :
    BitRun.count v.reservedBit 0 (32 * v.reservedWords.length) =
      ((List.range v.numreserved).filter v.reservedBit).length := by
  have hbound : ∀ k, v.reservedBit k = true → k < v.numreserved := fun k hk => by
    by_contra hge
    rw [hnone k (not_lt.1 hge)] at hk
    cases hk
  rw [← BitRun.count_extend (fun k hk => v.reservedBit_of_le hk) (le_max_right v.numreserved _),
    BitRun.count_of_bound hbound (le_max_left _ _)]

/-- The reserved allocator stays in its area and can hand out what the reader counts exactly if no
bit of the cluster behind those of the reserved blocks is set and the counter in the rootblock is
at least the number of free blocks. -/
theorem allocReservedBlock_stays_iff {dev : Device} {v : Volume} {clock : ℕ → Datestamp}
    (hv : Volume.fromDevice dev = .ok v) (hw : Writer.open v clock = .ok w) :
    (w.StaysInArea ∧ ∃ n, v.answer Volume.reservedCountFree = .ok n ∧ w.HandsOut n) ↔
      (∀ k, v.numreserved ≤ k → v.reservedBit k = false) ∧
        ((List.range v.numreserved).filter v.reservedBit).length ≤ v.rootblock.reservedFree := by
  have hl := loaded_of_open (Volume.opened_of_fromDevice hv) hw
  have hcount := Volume.answer_reservedCountFree hl.readable
  constructor
  · rintro ⟨hstays, n, hans, hout⟩
    rw [hcount] at hans
    cases hans
    obtain ⟨heq, hle⟩ := hout.count
    rw [hl.freeCount] at heq
    rw [hl.reservedFree] at hle
    have hnone : ∀ k, v.numreserved ≤ k → v.reservedBit k = false := by
      intro k hk
      rw [← Bool.not_eq_true]
      intro hset
      by_cases hin : k < 32 * w.resBitmap.length
      · -- A set bit that was loaded is handed out.
        obtain ⟨h, w₁, w₂, hrun, hcall⟩ := hout.returns .start ((hl.isFree hin).trans hset)
        obtain ⟨⟨i, hi, haddr, -⟩, -⟩ := hstays h w₁ _ w₂ hrun hcall
        have hmul := Nat.eq_of_mul_eq_mul_right hl.pos (Nat.add_left_cancel haddr)
        rw [hl.numreserved] at hi
        omega
      · -- One that was not loaded is counted by the reader only.
        have hlen := hl.length_le
        obtain ⟨m, hm⟩ := Nat.exists_eq_add_of_le (Nat.mul_le_mul_left 32 hlen)
        have hlast : k < 32 * v.reservedWords.length := by
          by_contra hge
          rw [v.reservedBit_of_le (not_lt.1 hge)] at hset
          cases hset
        have hpos := BitRun.count_pos (f := v.reservedBit) (n := m) (not_lt.1 hin) (by omega) hset
        rw [hm, BitRun.count_add, Nat.zero_add] at heq
        omega
    rw [count_reservedBit hnone] at hle
    exact ⟨hnone, hle⟩
  · rintro ⟨hnone, hle⟩
    have hfree : ∀ k, w.isFree k = true → k < w.numreserved := by
      intro k hk
      rw [hl.numreserved]
      by_contra hge
      rw [hl.isFree (isFree_lt hk), hnone k (not_lt.1 hge)] at hk
      cases hk
    refine ⟨staysInArea_of_free hl.pos hfree, _, hcount, ?_⟩
    refine handsOut_freeCount (hl.count_eq hnone).symm ?_ fun k hk => ?_
    · rw [hl.reservedFree, count_reservedBit hnone]
      exact hle
    · have hlt := hfree k hk
      rw [hl.numreserved] at hlt
      calc w.firstreserved + k * w.rescluster
          < w.firstreserved + v.numreserved * w.rescluster :=
            Nat.add_lt_add_left (Nat.mul_lt_mul_of_pos_right hlt hl.pos) _
        _ ≤ U32 := hl.ends

/-- A device with the reserved blocks 2 to 9, `word` as the first word of their bitmap, zeros behind
it, and `free` in the counter. -/
def eightReserved (word free : ℕ) : Device where
  sectors
    | 2 => .ofFields [(0, enc32 ID_PFS_DISK), (RB_OFF_OPTIONS, enc32 MODE_SPLITTED_ANODES),
        (RB_OFF_LASTRESERVED, enc32 9), (RB_OFF_FIRSTRESERVED, enc32 2),
        (RB_OFF_RESERVED_FREE, enc32 free), (RB_OFF_RESERVED_BLKSIZE, enc16 512),
        (RB_OFF_RBLKCLUSTER, enc16 2), (RB_OFF_DISKSIZE, enc32 20)]
    | 3 => .ofFields [(12, enc32 word)]
    | _ => .ofFields []
  total := 20
  writable := true
  faults _ := false
  attempts := 0
  log := []

/-- Three of the blocks are free. -/
theorem allocReservedBlock_stays_three : ∃ v w,
    Volume.fromDevice (eightReserved 0x07000000 3) = .ok v ∧
    Writer.open v (fun _ => ⟨0, 0, 0⟩) = .ok w ∧ w.StaysInArea ∧
    ∃ n, v.answer Volume.reservedCountFree = .ok n ∧ w.HandsOut n := by
  have hcheck : whenOpened (eightReserved 0x07000000 3) (fun v _ =>
      decide (v.numreserved = 8 ∧ v.rootblock.reservedFree = 3 ∧
        v.reservedWords = 0x07000000 :: List.replicate 124 0)) = true := by
    decide +kernel
  obtain ⟨v, w, hv, hw, hgeo⟩ := of_whenOpened hcheck
  obtain ⟨hnum, hfree, hwords⟩ := of_decide_eq_true hgeo
  have hbit : ∀ k < 32, v.reservedBit k = (0x07000000 : BitVec 32).getMsbD k := by
    intro k hk
    rw [Volume.reservedBit, hwords, Nat.div_eq_of_lt hk, Nat.mod_eq_of_lt hk]
    rfl
  refine ⟨v, w, hv, hw, (allocReservedBlock_stays_iff hv hw).mpr ⟨fun k hk => ?_, ?_⟩⟩
  · rw [hnum] at hk
    by_cases hlt : k < 32
    · rw [hbit k hlt]
      have hall : ∀ k < 32, 8 ≤ k → (0x07000000 : BitVec 32).getMsbD k = false := by decide
      exact hall k hlt hk
    · obtain ⟨j, hj⟩ : ∃ j, k / 32 = j + 1 := ⟨k / 32 - 1, by omega⟩
      have hzero : (List.replicate 124 (0 : BitVec 32)).getD j 0 = 0 := by
        rw [List.getD_eq_getElem?_getD, List.getElem?_replicate]
        split <;> rfl
      rw [Volume.reservedBit, hwords, hj, List.getD_cons_succ, hzero]
      simp
  · rw [hnum, hfree, List.filter_congr fun k hk => hbit k (by
      have := List.mem_range.mp hk
      omega)]
    decide

/-- The bit behind those of the eight blocks is set: the first data block is handed out. -/
theorem allocReservedBlock_leaves_area : ∃ v w,
    Volume.fromDevice (eightReserved 0x00800000 1) = .ok v ∧
    Writer.open v (fun _ => ⟨0, 0, 0⟩) = .ok w ∧
    ¬ (w.StaysInArea ∧ ∃ n, v.answer Volume.reservedCountFree = .ok n ∧ w.HandsOut n) := by
  have hcheck : whenOpened (eightReserved 0x00800000 1) (fun _ w =>
      decide (w.firstreserved = 2 ∧ w.numreserved = 8 ∧ w.rescluster = 1 ∧
        outcome (allocReservedBlock w) = .ok 10)) = true := by
    decide +kernel
  obtain ⟨v, w, hv, hw, hgeo⟩ := of_whenOpened hcheck
  obtain ⟨hfirst, hnum, hcluster, hout⟩ := of_decide_eq_true hgeo
  refine ⟨v, w, hv, hw, fun hboth => ?_⟩
  cases hcall : allocReservedBlock w with
  | error f w' =>
      rw [hcall] at hout
      cases hout
  | ok blk w' =>
      rw [hcall] at hout
      obtain rfl : blk = 10 := by simpa [outcome] using hout
      obtain ⟨⟨k, hk, hblk, -⟩, -⟩ := hboth.1 [] w 10 w' .start hcall
      rw [hfirst, hcluster, Nat.mul_one] at hblk
      rw [hnum] at hk
      omega

end Writer

end Pfs3
