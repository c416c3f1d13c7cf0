import Pfs3.Store.Root

/-!
# Writing to the device

What a device without faults holds after sector writes and reserved block writes.
-/

namespace Pfs3

open ByteList

/-! ## Sectors -/

/-- The device after one sector write. -/
def Device.put (d : Device) (b : ℕ) (s : Sector) : Device :=
  { d with
    sectors := Function.update d.sectors b s
    attempts := d.attempts + 1
    log := d.log ++ [(b, s)] }

/-- The device after a reserved block of two sectors was written. -/
def Device.putReserved (d : Device) (b : ℕ) (data : Bytes) : Device :=
  (d.put b (.ofBytes data)).put (b + 1) (.ofBytes (data.drop 512))

/-- The device after several reserved blocks were written in order. -/
def Device.putMany (d : Device) (q : List (ℕ × Bytes)) : Device :=
  q.foldl (fun d p => d.putReserved p.1 p.2) d

/-- Every write to the device succeeds. -/
structure Device.Sound (d : Device) : Prop where
  writable : d.writable = true
  faults : ∀ n, d.faults n = false

theorem Device.Sound.put {d : Device} (h : d.Sound) (b : ℕ) (s : Sector) : (d.put b s).Sound :=
  ⟨h.writable, h.faults⟩

theorem Sector.ofBytes_of_length {b : Bytes} (h : b.length = 512) :
    (Sector.ofBytes b).val = b := by
  have hs : SECTOR_SIZE = 512 := rfl
  show (b ++ List.replicate SECTOR_SIZE 0).take SECTOR_SIZE = b
  rw [hs]
  exact List.take_left' h

theorem Sector.ofBytes_val (s : Sector) : Sector.ofBytes s.val = s :=
  Subtype.ext (Sector.ofBytes_of_length s.property)

theorem Sector.ofBytes_take {b : Bytes} (h : 512 ≤ b.length) :
    (Sector.ofBytes b).val = b.take 512 := by
  have hs : SECTOR_SIZE = 512 := rfl
  show (b ++ List.replicate SECTOR_SIZE 0).take SECTOR_SIZE = b.take 512
  rw [hs]
  exact List.take_append_of_le_length h

namespace Device

variable {d : Device}

theorem writeSector_ok (h : d.Sound) (b : ℕ) (s : Sector) :
    Device.writeSector b s d = .ok () (d.put b s) := by
  unfold Device.writeSector
  rw [h.faults]
  rfl

theorem writeBlock_ok (h : d.Sound) {b : ℕ} (hb : b < d.total) (s : Sector) :
    Device.writeBlock b s.val d = .ok () (d.put b s) := by
  have hlen : s.val.length = 512 := s.property
  have hs : SECTOR_SIZE = 512 := rfl
  unfold Device.writeBlock Device.writeBlocks
  rw [Stop.bind_of_ok (rfl : (get : EStateM Fault Device Device) d = .ok d d), h.writable]
  simp only [Bool.not_true, Bool.false_eq_true, if_false]
  rw [if_neg (by omega), if_neg (by omega)]
  simp only [List.range_one, List.map_cons, List.map_nil, Nat.zero_mul, List.drop_zero,
    Sector.ofBytes_val]
  unfold Device.writeSectors
  rw [Stop.bind_of_ok (writeSector_ok h b s)]
  rfl

/-- Two sectors written as a reserved block. -/
theorem writeReservedBlocks_ok (h : d.Sound) {b : ℕ} (hb : b + 1 < d.total) (data : Bytes) :
    Device.writeReservedBlocks b data 2 d =
      .ok () (d.putReserved b data) := by
  have hfirst := writeBlock_ok h (by omega : b < d.total) (.ofBytes data)
  have hsecond := writeBlock_ok (h.put b (.ofBytes data)) (b := b + 1) hb
    (.ofBytes (data.drop 512))
  exact (Stop.bind_of_ok hfirst).trans (Stop.bind_of_ok hsecond)

theorem bytesAt_congr {d' : Device} {block count : ℕ}
    (h : ∀ i, block ≤ i → i < block + count → d'.sectors i = d.sectors i) :
    d'.bytesAt block count = d.bytesAt block count := by
  unfold Device.bytesAt
  refine List.flatMap_congr fun i hi => ?_
  have hi := List.mem_range'_1.mp hi
  rw [h i hi.1 hi.2]

theorem bytesAt_two (d : Device) (b : ℕ) :
    d.bytesAt b 2 = (d.sectors b).val ++ (d.sectors (b + 1)).val := by
  rw [d.bytesAt_succ b 1, d.bytesAt_succ (b + 1) 0]
  exact congrArg _ (List.append_nil _)

/-- A reserved block reads what was written to it. -/
theorem bytesAt_putReserved (d : Device) (b : ℕ) {data : Bytes} (h : data.length = 1024) :
    (d.putReserved b data).bytesAt b 2 = data := by
  have hne : b ≠ b + 1 := by omega
  have hdrop : (data.drop 512).length = 512 := by rw [List.length_drop]; omega
  rw [bytesAt_two]
  simp only [Device.putReserved, Device.put, Function.update_self, Function.update_of_ne hne]
  rw [Sector.ofBytes_take (by omega), Sector.ofBytes_of_length hdrop, List.take_append_drop]

theorem sectors_putReserved (d : Device) {b i : ℕ} (data : Bytes) (h : i ≠ b) (h' : i ≠ b + 1) :
    (d.putReserved b data).sectors i = d.sectors i := by
  simp only [Device.putReserved, Device.put, Function.update_of_ne h', Function.update_of_ne h]

/-! ## Several reserved blocks -/

theorem sound_putMany (q : List (ℕ × Bytes)) : ∀ {d : Device}, d.Sound → (d.putMany q).Sound := by
  induction q with
  | nil => exact fun h => h
  | cons p q ih => exact fun h => ih ((h.put _ _).put _ _)

theorem total_putMany (q : List (ℕ × Bytes)) : ∀ d : Device, (d.putMany q).total = d.total := by
  induction q with
  | nil => exact fun _ => rfl
  | cons p q ih => exact fun d => ih (d.putReserved p.1 p.2)

theorem sectors_putMany {q : List (ℕ × Bytes)} {i : ℕ} : ∀ {d : Device},
    (∀ p ∈ q, i ≠ p.1 ∧ i ≠ p.1 + 1) → (d.putMany q).sectors i = d.sectors i := by
  induction q with
  | nil => exact fun _ => rfl
  | cons p q ih =>
      intro d h
      obtain ⟨h₁, h₂⟩ := h p List.mem_cons_self
      exact (ih fun p hp => h p (List.mem_cons_of_mem _ hp)).trans (d.sectors_putReserved _ h₁ h₂)

end Device

theorem Geometry.IsReserved.disjoint {g : Geometry} {b k : ℕ} (hb : g.IsReserved b)
    (hk : g.IsReserved k) (h : k ≠ b) : k ≠ b + 1 ∧ k + 1 ≠ b := by
  obtain ⟨i, -, -, rfl⟩ := hb
  obtain ⟨j, -, -, rfl⟩ := hk
  simp only [blockAt]
  omega

namespace Device

variable {d : Device}

/-- Every block reads what was written to it last. -/
theorem bytesAt_putMany {g : Geometry} {k : ℕ} (hk : g.IsReserved k) (q : List (ℕ × Bytes)) :
    ∀ {d : Device}, (∀ p ∈ q, g.IsReserved p.1 ∧ p.2.length = 1024) → (q.map Prod.fst).Nodup →
    (d.putMany q).bytesAt k 2 = (q.lookup k).getD (d.bytesAt k 2) := by
  induction q with
  | nil => exact fun _ _ => rfl
  | cons p q ih =>
      intro d hq hnodup
      obtain ⟨b, data⟩ := p
      obtain ⟨hb, hlen⟩ := hq (b, data) List.mem_cons_self
      obtain ⟨hnot, hnodup⟩ := List.nodup_cons.mp hnodup
      have hrest := @ih (d.putReserved b data) (fun p hp => hq p (List.mem_cons_of_mem _ hp)) hnodup
      refine Eq.trans hrest ?_
      rw [List.lookup_cons]
      by_cases hkb : k = b
      · subst hkb
        have hnone : q.lookup k = none := by
          rw [List.lookup_eq_none_iff]
          intro p hp
          have hne : p.1 ≠ k := fun h => hnot (List.mem_map.mpr ⟨p, hp, h⟩)
          simpa using fun h => hne h.symm
        simp [hnone, d.bytesAt_putReserved k hlen]
      · have hkb' : (k == b) = false := by simpa using hkb
        obtain ⟨h₁, h₂⟩ := hb.disjoint hk hkb
        rw [hkb']
        refine congrArg _ (bytesAt_congr fun i hi hi' => ?_)
        exact d.sectors_putReserved data (by omega) (by omega)

/-! ## Consecutive sectors -/

/-- `n` sectors from `b` on, written one by one. -/
def putRange (d : Device) (b : ℕ) (f : ℕ → Sector) (n : ℕ) : Device :=
  (List.range n).foldl (fun d i => d.put (b + i) (f i)) d

theorem putRange_succ (d : Device) (b : ℕ) (f : ℕ → Sector) (n : ℕ) :
    d.putRange b f (n + 1) = (d.putRange b f n).put (b + n) (f n) := by
  rw [putRange, List.range_succ, List.foldl_append]
  rfl

theorem sound_putRange (h : d.Sound) (b : ℕ) (f : ℕ → Sector) (n : ℕ) :
    (d.putRange b f n).Sound ∧ (d.putRange b f n).total = d.total := by
  induction n with
  | zero => exact ⟨h, rfl⟩
  | succ n ih =>
      rw [putRange_succ]
      exact ⟨ih.1.put _ _, ih.2⟩

theorem sectors_putRange (d : Device) (b : ℕ) (f : ℕ → Sector) (n i : ℕ) :
    (d.putRange b f n).sectors i =
      if b ≤ i ∧ i < b + n then f (i - b) else d.sectors i := by
  induction n with
  | zero =>
      rw [if_neg (by omega)]
      rfl
  | succ n ih =>
      rw [putRange_succ]
      by_cases hi : i = b + n
      · subst hi
        rw [if_pos (by omega), Nat.add_sub_cancel_left]
        exact Function.update_self _ _ _
      · have hne : ((d.putRange b f n).put (b + n) (f n)).sectors i =
            (d.putRange b f n).sectors i := Function.update_of_ne hi _ _
        rw [hne, ih]
        by_cases hin : b ≤ i ∧ i < b + n
        · rw [if_pos hin, if_pos (by omega)]
        · rw [if_neg hin, if_neg (by omega)]

/-- The loop of the code that writes sector after sector. -/
theorem forM_writeBlock (h : d.Sound) {b n : ℕ} (hb : b + n ≤ d.total) (f : ℕ → Sector) :
    (List.range n).forM (fun i => Device.writeBlock (b + i) (f i).val) d =
      .ok () (d.putRange b f n) := by
  have hforM : ∀ (l : List ℕ) (d : Device), d.Sound → (∀ i ∈ l, b + i < d.total) →
      l.forM (fun i => Device.writeBlock (b + i) (f i).val) d =
        .ok () (l.foldl (fun d i => d.put (b + i) (f i)) d) := by
    intro l
    induction l with
    | nil => exact fun _ _ _ => rfl
    | cons i l ih =>
        intro d hd hl
        exact (Stop.bind_of_ok (writeBlock_ok hd (hl i List.mem_cons_self) (f i))).trans
          (ih _ (hd.put _ _) fun j hj => hl j (List.mem_cons_of_mem _ hj))
  exact hforM _ d h fun i hi => by
    have := List.mem_range.mp hi
    omega

/-- `d'` is `d` with the bytes `data` written to the `n` sectors from `b` on. -/
structure Wrote (d d' : Device) (b n : ℕ) (data : Bytes) : Prop where
  sound : d'.Sound
  total : d'.total = d.total
  out : ∀ i, i < b ∨ b + n ≤ i → d'.sectors i = d.sectors i
  bytes : d'.bytesAt b n = data

/-- A write leaves the other blocks alone. -/
theorem Wrote.keeps {b n c m : ℕ} {data : Bytes} {d' : Device} (h : Wrote d d' b n data)
    (hdisj : b + n ≤ c ∨ c + m ≤ b) : d'.bytesAt c m = d.bytesAt c m :=
  bytesAt_congr fun i hi hi' => h.out i (by omega)

theorem flatMap_sectors (data : Bytes) (count : ℕ) (h : data.length = count * 512) :
    (List.range count).flatMap (fun i => (Sector.ofBytes (data.drop (i * 512))).val) = data := by
  induction count generalizing data with
  | zero =>
      have hnil : data = [] := List.eq_nil_of_length_eq_zero (by omega)
      simp [hnil]
  | succ n ih =>
      have hlen : (data.drop 512).length = n * 512 := by rw [List.length_drop]; omega
      have hrest := ih (data.drop 512) hlen
      rw [List.range_succ_eq_map, List.flatMap_cons, List.flatMap_map]
      simp only [List.drop_drop] at hrest
      have hstep : ∀ i, (i + 1) * 512 = 512 + i * 512 := by intro i; omega
      simp only [Nat.succ_eq_add_one, hstep, hrest, Nat.zero_mul, List.drop_zero]
      rw [Sector.ofBytes_take (by omega), List.take_append_drop]

theorem wrote_putRange (h : d.Sound) (b : ℕ) {n : ℕ} {data : Bytes}
    (hlen : data.length = n * 512) :
    Wrote d (d.putRange b (fun i => .ofBytes (data.drop (i * SECTOR_SIZE))) n) b n data where
  sound := (sound_putRange h b _ n).1
  total := (sound_putRange h b _ n).2
  out := fun i hi => by rw [sectors_putRange, if_neg (by omega)]
  bytes := by
    refine Eq.trans ?_ (flatMap_sectors data n hlen)
    unfold Device.bytesAt
    rw [List.range'_eq_map_range, List.flatMap_map]
    refine List.flatMap_congr fun i hi => ?_
    have hlt := List.mem_range.mp hi
    rw [sectors_putRange, if_pos (by omega), Nat.add_sub_cancel_left]
    rfl

/-- Writing a reserved block of `n` sectors. -/
theorem writeReservedBlocks_wrote (h : d.Sound) {b n : ℕ} {data : Bytes} (hb : b + n ≤ d.total)
    (hlen : data.length = n * 512) :
    ∃ d', Device.writeReservedBlocks b data n d = .ok () d' ∧ Wrote d d' b n data :=
  ⟨_, forM_writeBlock h hb _, wrote_putRange h b hlen⟩

theorem writeSectors_putRange (f : ℕ → Sector) (n : ℕ) : ∀ {d : Device} (b k : ℕ), d.Sound →
    Device.writeSectors (b + k) ((List.range' k n).map f) (d.putRange b f k) =
      .ok () (d.putRange b f (k + n)) := by
  induction n with
  | zero => exact fun _ _ _ => rfl
  | succ n ih =>
      intro d b k h
      rw [List.range'_succ, List.map_cons, Device.writeSectors,
        Stop.bind_of_ok (writeSector_ok (sound_putRange h b f k).1 (b + k) (f k)), ← putRange_succ,
        Nat.add_assoc, ih b (k + 1) h]
      congr 2
      omega

/-- Consecutive blocks read what was written to them. -/
theorem writeBlocks_ok (h : d.Sound) {b n : ℕ} {data : Bytes} (hb : b + n ≤ d.total)
    (hlen : data.length = n * 512) :
    ∃ d', Device.writeBlocks b n data d = .ok () d' ∧ Wrote d d' b n data := by
  have hs : SECTOR_SIZE = 512 := rfl
  have hrun := @writeSectors_putRange (fun i => .ofBytes (data.drop (i * SECTOR_SIZE))) n d b 0 h
  refine ⟨_, ?_, wrote_putRange h b hlen⟩
  unfold Device.writeBlocks
  rw [Stop.bind_of_ok (rfl : (get : EStateM Fault Device Device) d = .ok d d), h.writable]
  simp only [Bool.not_true, Bool.false_eq_true, if_false]
  rw [if_neg (by omega), if_neg (by rw [hs]; omega), List.range_eq_range']
  rw [Nat.zero_add] at hrun
  exact hrun

end Device

end Pfs3
