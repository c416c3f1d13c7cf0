import Pfs3.Store.Cache
import Pfs3.Store.DeviceWrites

/-!
# Runs of the cache

Blocks are read through the cache, or written to the device and then invalidated, in any order.  As
long as no two of the blocks overlap, every read shows the device, and the cache drops what was not
read for the longest time.
-/

namespace Pfs3

open ByteList Stop

/-- The state that a run of the code leaves, however it ends. -/
def leaves {ε σ α : Type} : EStateM.Result ε σ α → σ
  | .ok _ s => s
  | .error _ s => s

@[simp] theorem leaves_ok {ε σ α : Type} (a : α) (s : σ) :
    leaves (.ok a s : EStateM.Result ε σ α) = s := rfl

@[simp] theorem leaves_error {ε σ α : Type} (e : ε) (s : σ) :
    leaves (.error e s : EStateM.Result ε σ α) = s := rfl

namespace Device

/-! ## Which sectors a write touches -/

/-- However it ends, the computation changes no sector outside `P`, nor the size of the device. -/
def Touches (P : ℕ → Prop) {α : Type} (m : EStateM Fault Device α) : Prop :=
  ∀ d, (leaves (m d)).total = d.total ∧ ∀ i, ¬ P i → (leaves (m d)).sectors i = d.sectors i

section Touches

variable {P : ℕ → Prop} {α β : Type}

theorem touches_pure (a : α) : Touches P (pure a) := fun _ => ⟨rfl, fun _ _ => rfl⟩

theorem touches_throw (f : Fault) : Touches P (throw f : EStateM Fault Device α) :=
  fun _ => ⟨rfl, fun _ _ => rfl⟩

theorem touches_get : Touches P (get : EStateM Fault Device Device) := fun _ => ⟨rfl, fun _ _ => rfl⟩

theorem Touches.bind {m : EStateM Fault Device α} {k : α → EStateM Fault Device β}
    (h : Touches P m) (hk : ∀ a, Touches P (k a)) : Touches P (m >>= k) := by
  intro d
  obtain ⟨htotal, hsectors⟩ := h d
  rcases hm : m d with ⟨a, d'⟩ | ⟨f, d'⟩ <;> rw [hm] at htotal hsectors
  · rw [bind_of_ok hm]
    obtain ⟨htotal', hsectors'⟩ := hk a d'
    exact ⟨htotal'.trans htotal, fun i hi => (hsectors' i hi).trans (hsectors i hi)⟩
  · rw [bind_of_error hm]
    exact ⟨htotal, hsectors⟩

theorem touches_forM {ι : Type} {m : ι → EStateM Fault Device PUnit} (l : List ι) :
    (∀ i ∈ l, Touches P (m i)) → Touches P (l.forM m) := by
  induction l with
  | nil => exact fun _ => touches_pure _
  | cons i l ih =>
      intro h
      exact (h i List.mem_cons_self).bind fun _ => ih fun j hj => h j (List.mem_cons_of_mem i hj)

theorem touches_writeSector {b : ℕ} (s : Sector) (hb : P b) : Touches P (writeSector b s) := by
  intro d
  unfold writeSector
  split
  · exact ⟨rfl, fun _ _ => rfl⟩
  · refine ⟨rfl, fun i hi => Function.update_of_ne ?_ _ _⟩
    rintro rfl
    exact hi hb

theorem touches_writeBlock {b : ℕ} (data : Bytes) (hb : P b) : Touches P (writeBlock b data) := by
  refine touches_get.bind fun d => ?_
  split
  · exact touches_throw _
  · split
    · exact touches_throw _
    · split
      · exact touches_throw _
      · exact (touches_writeSector _ hb).bind fun _ => touches_pure _

theorem touches_writeReservedBlocks (b : ℕ) (data : Bytes) (rescluster : ℕ) :
    Touches (fun i => b ≤ i ∧ i < b + rescluster) (writeReservedBlocks b data rescluster) := by
  refine touches_forM _ fun i hi => touches_writeBlock _ ?_
  have hlt := List.mem_range.mp hi
  omega

end Touches

/-- A reserved block reads the same on a device of the same size with the same sectors in it. -/
theorem readReserved_congr {d d' : Device} {rbs b : ℕ} (htotal : d'.total = d.total)
    (h : ∀ i, b ≤ i → i < b + max (rbs / SECTOR_SIZE) 1 → d'.sectors i = d.sectors i) :
    d'.readReserved rbs b = d.readReserved rbs b := by
  unfold Device.readReserved Device.readBlocks
  rw [htotal, bytesAt_congr h]

end Device

namespace BlockCache

/-! ## Runs -/

/-- A reserved block is read through the cache, or written to the device and invalidated. -/
inductive Access
  | read (block : ℕ)
  | write (block : ℕ) (data : Bytes)

namespace Access

def block : Access → ℕ
  | read b => b
  | write b _ => b

def isRead : Access → Bool
  | read _ => true
  | write _ _ => false

/-- What the access makes of the device and the cache, whether it succeeds or not. -/
def step (rbs : ℕ) : Access → Device × BlockCache → Device × BlockCache
  | read b, (dev, c) => (dev, leaves (readReserved dev b rbs c))
  | write b data, (dev, c) =>
      (leaves (Device.writeReservedBlocks b data (rbs / SECTOR_SIZE) dev), c.invalidate b)

end Access

/-- The device and the cache after a history of accesses, the latest first. -/
def after (rbs : ℕ) (dev : Device) : List Access → Device × BlockCache
  | [] => (dev, .new)
  | a :: history => a.step rbs (after rbs dev history)

/-- The number of reads in a history. -/
def reads (history : List Access) : ℕ := history.countP Access.isRead

theorem reads_read (b : ℕ) (history : List Access) :
    reads (.read b :: history) = reads history + 1 := List.countP_cons_of_pos rfl

theorem reads_write (b : ℕ) (data : Bytes) (history : List Access) :
    reads (.write b data :: history) = reads history := List.countP_cons_of_neg (by simp [Access.isRead])

/-- How many reads there were up to the last one of block `k`; `0` without one. -/
def lastRead : List Access → ℕ → ℕ
  | [], _ => 0
  | .read b :: history, k => if b = k then reads history + 1 else lastRead history k
  | .write _ _ :: history, k => lastRead history k

theorem lastRead_le (history : List Access) (k : ℕ) : lastRead history k ≤ reads history := by
  induction history with
  | nil => exact Nat.zero_le _
  | cons a history ih =>
      cases a with
      | read b =>
          rw [lastRead, reads_read]
          split <;> omega
      | write b data =>
          rw [reads_write]
          exact ih

/-- Two blocks are not read last in the same read. -/
theorem lastRead_inj (history : List Access) {k k' : ℕ} (hne : k ≠ k') (hpos : 0 < lastRead history k) :
    lastRead history k ≠ lastRead history k' := by
  induction history with
  | nil => exact absurd hpos (lt_irrefl 0)
  | cons a history ih =>
      cases a with
      | read b =>
          have hle := lastRead_le history k
          have hle' := lastRead_le history k'
          rw [lastRead] at hpos
          rw [lastRead, lastRead]
          by_cases hk : b = k
          · rw [if_pos hk, if_neg fun hk' => hne (hk.symm.trans hk')]
            omega
          · rw [if_neg hk] at hpos ⊢
            split
            · omega
            · exact ih hpos
      | write b data => exact ih hpos

/-! ## Eviction -/

theorem oldest_eq_none {l : List (ℕ × CacheEntry)} (h : oldest l = none) : l = [] := by
  cases l with
  | nil => rfl
  | cons p l =>
      obtain ⟨k, e⟩ := p
      rw [oldest] at h
      split at h
      · cases h
      · split at h <;> cases h

/-- The entry with the smallest generation. -/
theorem of_oldest (l : List (ℕ × CacheEntry)) : ∀ {k g : ℕ}, oldest l = some (k, g) →
    ∃ e, (k, e) ∈ l ∧ e.generation = g ∧ ∀ p ∈ l, g ≤ p.2.generation := by
  induction l with
  | nil =>
      intro k g h
      cases h
  | cons p l ih =>
      obtain ⟨b, d⟩ := p
      intro k g h
      rw [oldest] at h
      split at h
      · rename_i hnone
        cases h
        refine ⟨d, List.mem_cons_self, rfl, fun p hp => ?_⟩
        rw [oldest_eq_none hnone] at hp
        rw [List.mem_singleton.mp hp]
      · rename_i k' g' hsome
        obtain ⟨e, hmem, hgen, hmin⟩ := ih hsome
        split at h
        · rename_i hle
          cases h
          refine ⟨d, List.mem_cons_self, rfl, fun p hp => ?_⟩
          rcases List.mem_cons.mp hp with rfl | hp
          · exact le_rfl
          · exact hle.trans (hmin p hp)
        · rename_i hlt
          cases h
          refine ⟨e, List.mem_cons_of_mem _ hmem, hgen, fun p hp => ?_⟩
          rcases List.mem_cons.mp hp with rfl | hp
          · exact Nat.le_of_not_le hlt
          · exact hmin p hp

/-! ## What holds after every history -/

/-- No two of the reserved blocks overlap. -/
def Apart (rbs : ℕ) (B : Set ℕ) : Prop :=
  ∀ b ∈ B, ∀ b' ∈ B, b ≠ b' →
    b + max (rbs / SECTOR_SIZE) 1 ≤ b' ∨ b' + max (rbs / SECTOR_SIZE) 1 ≤ b

/-- The cache after a history: it shows the device, it is no larger than it may be, and each entry is
stamped with the last read of its block. -/
structure Recorded (rbs : ℕ) (B : Set ℕ) (history : List Access) (dev : Device) (c : BlockCache) :
    Prop where
  coherent : c.Coherent dev rbs (· ∈ B)
  nodup : (c.entries.map Prod.fst).Nodup
  capacity : c.capacity = DEFAULT_CAPACITY
  size : c.entries.length ≤ DEFAULT_CAPACITY
  generation : c.generation = reads history
  stamped : ∀ p ∈ c.entries, p.2.generation = lastRead history p.1
  positive : ∀ p ∈ c.entries, 0 < p.2.generation

section Recorded

variable {rbs : ℕ} {B : Set ℕ} {history : List Access} {dev : Device} {c : BlockCache}

theorem recorded_new (rbs : ℕ) (B : Set ℕ) (dev : Device) : Recorded rbs B [] dev .new where
  coherent := coherent_new
  nodup := List.nodup_nil
  capacity := rfl
  size := Nat.zero_le _
  generation := rfl
  stamped _ hp := absurd hp List.not_mem_nil
  positive _ hp := absurd hp List.not_mem_nil

/-- A block that is not cached is the key of no entry. -/
theorem ne_of_lookup_none {l : List (ℕ × CacheEntry)} {b : ℕ} (h : l.lookup b = none) :
    ∀ p ∈ l, p.1 ≠ b := by
  intro p hp heq
  have hnone := List.lookup_eq_none_iff.mp h p hp
  rw [heq] at hnone
  simp at hnone

/-- A write and the invalidation of its block. -/
theorem Recorded.write (h : Recorded rbs B history dev c) (hapart : Apart rbs B) {b : ℕ} (hb : b ∈ B)
    (data : Bytes) : Recorded rbs B (.write b data :: history)
      (leaves (Device.writeReservedBlocks b data (rbs / SECTOR_SIZE) dev)) (c.invalidate b) where
  coherent := by
    obtain ⟨htotal, hsectors⟩ := Device.touches_writeReservedBlocks b data (rbs / SECTOR_SIZE) dev
    intro k e hk
    change (c.entries.filter fun p => p.1 != b).lookup k = some e at hk
    rw [lookup_filter_ne] at hk
    split at hk
    · cases hk
    · rename_i hne
      obtain ⟨hkB, hread⟩ := h.coherent k e hk
      have hdisjoint := hapart k hkB b hb hne
      refine ⟨hkB, (Device.readReserved_congr htotal fun i hi hi' => hsectors i ?_).trans hread⟩
      omega
  nodup := h.nodup.sublist (List.filter_sublist.map _)
  capacity := h.capacity
  size := (List.length_filter_le _ _).trans h.size
  generation := by
    rw [reads_write]
    exact h.generation
  stamped p hp := h.stamped p (List.mem_of_mem_filter hp)
  positive p hp := h.positive p (List.mem_of_mem_filter hp)

/-- A read of a cached block. -/
theorem Recorded.hit (h : Recorded rbs B history dev c) {b : ℕ} {e : CacheEntry}
    (hl : c.entries.lookup b = some e) :
    Recorded rbs B (.read b :: history) dev (leaves (readReserved dev b rbs c)) := by
  rw [readReserved_hit hl, leaves_ok]
  have hkeys : (c.entries.map fun p =>
      if p.1 = b then (p.1, { p.2 with generation := c.generation + 1 }) else p).map Prod.fst =
        c.entries.map Prod.fst := by
    rw [List.map_map]
    refine List.map_congr_left fun p _ => ?_
    rw [Function.comp]
    split <;> rfl
  refine ⟨?_, hkeys ▸ h.nodup, h.capacity, ?_, ?_, ?_, ?_⟩
  · intro k e' hk
    obtain ⟨e'', hk, hdata⟩ := lookup_map_generation _ _ _ _ hk
    rw [← hdata]
    exact h.coherent k e'' hk
  · rw [List.length_map]
    exact h.size
  · rw [reads_read, ← h.generation]
  · intro p hp
    obtain ⟨q, hq, rfl⟩ := List.mem_map.mp hp
    rw [lastRead]
    split
    · rename_i hqb
      rw [if_pos hqb.symm, ← h.generation]
    · rename_i hqb
      rw [if_neg fun heq => hqb heq.symm]
      exact h.stamped q hq
  · intro p hp
    obtain ⟨q, hq, rfl⟩ := List.mem_map.mp hp
    split
    · exact Nat.succ_pos _
    · exact h.positive q hq

/-- A read that the device refuses. -/
theorem Recorded.refused (h : Recorded rbs B history dev c) {b : ℕ}
    (hl : c.entries.lookup b = none) :
    Recorded rbs B (.read b :: history) dev { c with generation := c.generation + 1 } := by
  have hne := ne_of_lookup_none hl
  refine ⟨h.coherent, h.nodup, h.capacity, h.size, ?_, fun p hp => ?_, h.positive⟩
  · rw [reads_read, ← h.generation]
  · rw [lastRead, if_neg fun heq => hne p hp heq.symm]
    exact h.stamped p hp

/-- The least recently read block of a full cache. -/
theorem Recorded.oldest (h : Recorded rbs B history dev c)
    (hfull : c.entries.length = DEFAULT_CAPACITY) :
    ∃ k ∈ c.entries.map Prod.fst,
      c.evict.entries = (c.entries.filter fun p => p.1 != k) ∧
      ∀ k' ∈ c.entries.map Prod.fst, k' ≠ k → lastRead history k < lastRead history k' := by
  cases hold : BlockCache.oldest c.entries with
  | none =>
      rw [oldest_eq_none hold] at hfull
      cases hfull
  | some p =>
      obtain ⟨k, g⟩ := p
      obtain ⟨e, hmem, hgen, hmin⟩ := of_oldest c.entries hold
      refine ⟨k, List.mem_map.mpr ⟨_, hmem, rfl⟩, ?_, ?_⟩
      · unfold evict
        rw [if_pos (by rw [h.capacity, hfull]), hold]
        rfl
      · intro k' hk' hne
        obtain ⟨q, hq, rfl⟩ := List.mem_map.mp hk'
        have hstamp := h.stamped _ hmem
        have hpos := h.positive _ hmem
        have hle := hmin q hq
        rw [← hgen, hstamp, h.stamped q hq] at hle
        rw [hstamp] at hpos
        exact lt_of_le_of_ne hle (lastRead_inj history (Ne.symm hne) hpos)

/-- Below its capacity the cache drops nothing. -/
theorem Recorded.spare (h : Recorded rbs B history dev c)
    (hless : c.entries.length < DEFAULT_CAPACITY) : c.evict = c := by
  unfold evict
  rw [if_neg (by rw [h.capacity]; omega)]

/-- Making room drops entries only, and leaves room for one. -/
theorem Recorded.evict (h : Recorded rbs B history dev c) :
    List.Sublist c.evict.entries c.entries ∧ c.evict.entries.length < DEFAULT_CAPACITY ∧
      c.evict.generation = c.generation ∧ c.evict.capacity = c.capacity := by
  rcases lt_or_eq_of_le h.size with hless | hfull
  · rw [h.spare hless]
    exact ⟨List.Sublist.refl _, hless, rfl, rfl⟩
  · obtain ⟨k, hk, hentries, -⟩ := h.oldest hfull
    obtain ⟨q, hq, rfl⟩ := List.mem_map.mp hk
    have hlt : (c.entries.filter fun p => p.1 != q.1).length < c.entries.length :=
      List.length_filter_lt_length_iff_exists.mpr ⟨q, hq, by simp⟩
    refine ⟨hentries ▸ List.filter_sublist, ?_, ?_, ?_⟩
    · rw [hentries, ← hfull]
      exact hlt
    · unfold BlockCache.evict
      split
      · split <;> rfl
      · rfl
    · unfold BlockCache.evict
      split
      · split <;> rfl
      · rfl

/-- A read of a block that is not cached, and that the device answers. -/
theorem Recorded.insert (h : Recorded rbs B history dev c) {b : ℕ} (hb : b ∈ B) {data : Bytes}
    (hl : c.entries.lookup b = none) (hread : dev.readReserved rbs b = .ok data) :
    Recorded rbs B (.read b :: history) dev
      { c.evict with
        generation := c.generation + 1
        entries := (b, ⟨data, c.generation + 1⟩) :: c.evict.entries } := by
  obtain ⟨hsub, hlt, -, hcap⟩ := h.evict
  have hne := ne_of_lookup_none hl
  refine ⟨?_, ?_, hcap.trans h.capacity, hlt, ?_, fun p hp => ?_, fun p hp => ?_⟩
  · intro k e hk
    simp only [List.lookup_cons] at hk
    split at hk
    · rename_i hkb
      cases hk
      rw [beq_iff_eq.mp hkb]
      exact ⟨hb, hread⟩
    · exact h.coherent.evict k e hk
  · rw [List.map_cons, List.nodup_cons]
    refine ⟨fun hmem => ?_, h.nodup.sublist (hsub.map _)⟩
    obtain ⟨q, hq, heq⟩ := List.mem_map.mp hmem
    exact hne q (hsub.subset hq) heq
  · rw [reads_read, ← h.generation]
  · rw [lastRead]
    rcases List.mem_cons.mp hp with rfl | hp
    · rw [if_pos rfl, ← h.generation]
    · have hp' := hsub.subset hp
      rw [if_neg fun heq => hne p hp' heq.symm]
      exact h.stamped p hp'
  · rcases List.mem_cons.mp hp with rfl | hp
    · exact Nat.succ_pos _
    · exact h.positive p (hsub.subset hp)

/-- A miss, with the eviction before the counter is raised. -/
theorem readReserved_evicting {b : ℕ} (hl : c.entries.lookup b = none) :
    readReserved dev b rbs c = match dev.readReserved rbs b with
      | .error f => .error f { c with generation := c.generation + 1 }
      | .ok data => .ok data
          { c.evict with
            generation := c.generation + 1
            entries := (b, ⟨data, c.generation + 1⟩) :: c.evict.entries } := by
  rw [readReserved_miss hl]
  have hevict : ({ c with generation := c.generation + 1 } : BlockCache).evict =
      { c.evict with generation := c.generation + 1 } := by
    unfold BlockCache.evict
    split
    · dsimp only
      split <;> rfl
    · rfl
  rw [hevict] <;> rfl

/-- What one read does to the record. -/
theorem Recorded.read (h : Recorded rbs B history dev c) {b : ℕ} (hb : b ∈ B) :
    Recorded rbs B (.read b :: history) dev (leaves (readReserved dev b rbs c)) := by
  cases hl : c.entries.lookup b with
  | some e => exact h.hit hl
  | none =>
      rw [readReserved_evicting hl]
      cases hread : dev.readReserved rbs b with
      | error f => exact h.refused hl
      | ok data => exact h.insert hb hl hread

/-- The record holds after every history. -/
theorem recorded_after (hapart : Apart rbs B) (dev : Device) (history : List Access)
    (hB : ∀ a ∈ history, a.block ∈ B) :
    Recorded rbs B history (after rbs dev history).1 (after rbs dev history).2 := by
  induction history with
  | nil => exact recorded_new rbs B dev
  | cons a history ih =>
      have hhistory := ih fun a ha => hB a (List.mem_cons_of_mem _ ha)
      have ha := hB a List.mem_cons_self
      cases a with
      | read b => exact hhistory.read ha
      | write b data => exact hhistory.write hapart ha data

end Recorded

/-- What the next read of a block does: it ends as a read of the device does.  If the block was not
cached, it is entered, and only when the cache is full another entry is dropped, the one that was
least recently read. -/
structure ReadsThrough (rbs : ℕ) (history : List Access) (dev : Device) (c : BlockCache) (b : ℕ) :
    Prop where
  outcome_eq : outcome (readReserved dev b rbs c) = dev.readReserved rbs b
  kept : c.entries.lookup b = none → c.entries.length < DEFAULT_CAPACITY →
    ∀ data c', readReserved dev b rbs c = .ok data c' →
      c'.entries = (b, ⟨data, c'.generation⟩) :: c.entries
  dropped : c.entries.lookup b = none → c.entries.length = DEFAULT_CAPACITY →
    ∀ data c', readReserved dev b rbs c = .ok data c' → ∃ k ∈ c.entries.map Prod.fst,
      (c'.entries = (b, ⟨data, c'.generation⟩) :: c.entries.filter fun p => p.1 != k) ∧
      ∀ k' ∈ c.entries.map Prod.fst, k' ≠ k → lastRead history k < lastRead history k'

/-- The cache is transparent and bounded, after every history of reads and writes of reserved blocks
that do not overlap.  Its counter is the number of reads, so each of them gets its own generation. -/
theorem readReserved_transparent {rbs : ℕ} {B : Set ℕ} (hapart : Apart rbs B) (dev : Device)
    (history : List Access) (hB : ∀ a ∈ history, a.block ∈ B) :
    (after rbs dev history).2.entries.length ≤ DEFAULT_CAPACITY ∧
    (after rbs dev history).2.generation = reads history ∧
    ∀ b ∈ B, ReadsThrough rbs history (after rbs dev history).1 (after rbs dev history).2 b := by
  have h := recorded_after hapart dev history hB
  generalize (after rbs dev history).1 = dev' at *
  generalize (after rbs dev history).2 = c at *
  refine ⟨h.size, h.generation, fun b hb =>
    ⟨outcome_of_reads (readReserved_reads hb) h.coherent, fun hl hless data c' hrun => ?_,
      fun hl hfull data c' hrun => ?_⟩⟩
  · rw [readReserved_evicting hl, h.spare hless] at hrun
    split at hrun
    · cases hrun
    · cases hrun
      rfl
  · obtain ⟨k, hk, hentries, hleast⟩ := h.oldest hfull
    rw [readReserved_evicting hl] at hrun
    split at hrun
    · cases hrun
    · cases hrun
      exact ⟨k, hk, congrArg _ hentries, hleast⟩

/-- A device of 20 blocks full of zeros. -/
def zeroDevice : Device where
  sectors _ := .ofBytes []
  total := 20
  writable := true
  faults _ := false
  attempts := 0
  log := []

/-- Reserved blocks of 1024 bytes: block 10 is read, written and read, and block 12 as well. -/
theorem readReserved_transparent_two :
    outcome (readReserved
      (after 1024 zeroDevice [.read 10, .write 10 [1], .read 12, .read 10]).1 10 1024
      (after 1024 zeroDevice [.read 10, .write 10 [1], .read 12, .read 10]).2) =
        (after 1024 zeroDevice [.read 10, .write 10 [1], .read 12, .read 10]).1.readReserved 1024 10 := by
  have hapart : Apart 1024 {10, 12} := by
    rintro b (rfl | rfl) b' (rfl | rfl) hne
    · exact absurd rfl hne
    · exact Or.inl (by decide)
    · exact Or.inr (by decide)
    · exact absurd rfl hne
  have hB : ∀ a ∈ [Access.read 10, .write 10 [1], .read 12, .read 10],
      a.block ∈ ({10, 12} : Set ℕ) := by
    simp [Access.block]
  exact ((readReserved_transparent hapart zeroDevice _ hB).2.2 10 (Or.inl rfl)).outcome_eq

/-- Block 10 overlaps block 11: after a write of block 11 it is still read as it was. -/
theorem readReserved_overlapping : ∃ dev c data data',
    (dev, c) = after 1024 zeroDevice [.write 11 (List.replicate 1024 1), .read 10] ∧
    outcome (readReserved dev 10 1024 c) = .ok data ∧ dev.readReserved 1024 10 = .ok data' ∧
    data ≠ data' := by
  have hcheck : (match after 1024 zeroDevice [.write 11 (List.replicate 1024 1), .read 10] with
      | (dev, c) =>
          match outcome (readReserved dev 10 1024 c), dev.readReserved 1024 10 with
          | .ok data, .ok data' => data != data'
          | _, _ => false) = true := by decide +kernel
  split at hcheck
  rename_i dev c hafter
  split at hcheck
  · rename_i data data' hread hdev
    exact ⟨dev, c, data, data', hafter.symm, hread, hdev, bne_iff_ne.mp hcheck⟩
  · cases hcheck

end BlockCache

end Pfs3
