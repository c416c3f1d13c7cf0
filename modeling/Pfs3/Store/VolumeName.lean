import Pfs3.Faults.Flush
import Pfs3.Walk.Depth

/-!
# The volume name

`set_volume_name` cuts a name by bytes, keeps it as a string in memory and writes its bytes; the
rootblock parser reads the bytes back as Latin-1 characters.  The three agree on ASCII names.  The
cut may fall into a character, and the name is written to the first reserved block but read from
the rootblock.
-/

namespace Pfs3

open ByteList Stop

/-! ## Names and their bytes -/

/-- The bytes of an ASCII name are its characters. -/
theorem latin1ToString_asBytes {name : Name} (h : ∀ c ∈ name, c.toNat < 128) :
    latin1ToString (asBytes name) = name ∧ (asBytes name).length = name.length := by
  induction name with
  | nil => exact ⟨rfl, rfl⟩
  | cons c name ih =>
      obtain ⟨h₁, h₂⟩ := ih fun x hx => h x (List.mem_cons_of_mem c hx)
      have hc : c.toNat < 128 := h c List.mem_cons_self
      have henc : String.utf8EncodeChar c = [UInt8.ofNat c.toNat] := by
        unfold String.utf8EncodeChar
        dsimp only
        rw [if_pos (by rw [Char.toNat] at hc; omega)]
        rfl
      have hsplit : asBytes (c :: name) = UInt8.ofNat c.toNat :: asBytes name := by
        rw [asBytes, List.flatMap_cons, henc]
        rfl
      have hback : Char.ofNat (UInt8.ofNat c.toNat).toNat = c := by
        have hmod : (UInt8.ofNat c.toNat).toNat = c.toNat := by
          rw [UInt8.toNat_ofNat']
          omega
        rw [hmod, Char.ofNat_toNat]
      rw [hsplit]
      refine ⟨?_, by rw [List.length_cons, List.length_cons, h₂]⟩
      rw [latin1ToString, List.map_cons, hback]
      exact congrArg (c :: ·) h₁

namespace Writer

end Writer

/-! ## Opening the device -/

/-- The rootblock of a device that can be opened. -/
structure Device.Opens (d : Device) (rb : Rootblock) : Prop where
  parse : Rootblock.parse (d.bytesAt 2 1) = .ok rb
  first : 2 + 1 ≤ d.total
  cluster : 1 < rb.rblkcluster → 2 + rb.rblkcluster ≤ d.total
  valid : Volume.validateRbs rb = .ok ()
  ext : rb.hasExtension → ∃ data ext,
    d.readReserved rb.reservedBlksize rb.extension = .ok data ∧ RootblockExt.parse data = .ok ext

theorem Device.readBlocks_eq_ok {d : Device} {block count : ℕ} {buf : Bytes} :
    d.readBlocks block count (count * SECTOR_SIZE) = .ok buf ↔
      block + count ≤ d.total ∧ buf = d.bytesAt block count := by
  unfold Device.readBlocks
  rw [if_neg (lt_irrefl _), Nat.sub_self, List.replicate_zero, List.append_nil]
  split
  · constructor
    · intro h
      cases h
    · intro h
      omega
  · constructor
    · intro h
      cases h
      exact ⟨by omega, rfl⟩
    · rintro ⟨-, rfl⟩
      rfl

/-- The cluster has the rootblock of its first sector. -/
theorem Device.parse_cluster (d : Device) {n : ℕ} (hn : 0 < n) :
    Rootblock.parse (d.bytesAt 2 n) = Rootblock.parse (d.bytesAt 2 1) := by
  have hlen := d.length_bytesAt 2 n
  have hs : SECTOR_SIZE = 512 := rfl
  rw [← d.take_bytesAt 2 hn, parse_take (by omega)]

/-- A read through the empty cache. -/
theorem BlockCache.outcome_new (d : Device) (block rbs : ℕ) :
    outcome (BlockCache.readReserved d block rbs .new) = d.readReserved rbs block :=
  outcome_of_reads (readReserved_reads (P := fun _ => True) trivial) coherent_new

/-- The rest of `from_device` once the rootblock is read. -/
def Volume.mount (d : Device) (rb : Rootblock) : Except Fault Volume := do
  validateRbs rb
  if rb.hasExtension then
    match BlockCache.readReserved d rb.extension rb.reservedBlksize .new with
    | .error f _ => .error f
    | .ok data cache => do
        let ext ← RootblockExt.parse data
        pure ⟨d, cache, rb, some ext, .new rb (some ext), .new rb⟩
  else pure ⟨d, .new, rb, none, .new rb none, .new rb⟩

theorem Volume.fromDevice_eq_mount {d : Device} {rb : Rootblock}
    (hparse : Rootblock.parse (d.bytesAt 2 1) = .ok rb) (hfirst : 2 + 1 ≤ d.total)
    (hcluster : 1 < rb.rblkcluster → 2 + rb.rblkcluster ≤ d.total) :
    Volume.fromDevice d = Volume.mount d rb := by
  have hbuf : d.readBlock ROOTBLOCK = .ok (d.bytesAt 2 1) :=
    Device.readBlocks_eq_ok.2 ⟨hfirst, rfl⟩
  unfold Volume.fromDevice
  rw [hbuf, ok_bind, hparse, ok_bind]
  dsimp only
  split
  · have hbig : d.readBlocks ROOTBLOCK rb.rblkcluster (rb.rblkcluster * 512) =
        .ok (d.bytesAt 2 rb.rblkcluster) :=
      Device.readBlocks_eq_ok.2 ⟨hcluster (by omega), rfl⟩
    rw [hbig, ok_bind, d.parse_cluster (by omega), hparse]
    rfl
  · rfl

theorem Volume.opens_of_fromDevice {d : Device} {v : Volume} (h : Volume.fromDevice d = .ok v) :
    d.Opens v.rootblock := by
  have hopen := h
  unfold Volume.fromDevice at h
  obtain ⟨buf, hbuf, h⟩ := of_bind_ok h
  obtain ⟨hfirst, rfl⟩ := Device.readBlocks_eq_ok.1 (hbuf : d.readBlocks 2 1 (1 * 512) = .ok buf)
  obtain ⟨rb, hparse, h⟩ := of_bind_ok h
  have hcluster : 1 < rb.rblkcluster → 2 + rb.rblkcluster ≤ d.total := by
    intro hlt
    dsimp only at h
    rw [if_pos (by omega)] at h
    obtain ⟨big, hbig, -⟩ := of_bind_ok h
    exact (Device.readBlocks_eq_ok.1 hbig).1
  rw [fromDevice_eq_mount hparse hfirst hcluster] at hopen
  obtain ⟨⟨⟩, hvalid, h⟩ := of_bind_ok hopen
  by_cases hflag : rb.hasExtension = true
  · rw [if_pos hflag] at h
    have hout := BlockCache.outcome_new d rb.extension rb.reservedBlksize
    cases hread : BlockCache.readReserved d rb.extension rb.reservedBlksize .new with
    | error f c =>
        rw [hread] at h
        cases h
    | ok data c =>
        rw [hread] at h hout
        obtain ⟨ext, hext, h⟩ := of_bind_ok h
        cases h
        exact ⟨hparse, hfirst, hcluster, hvalid, fun _ => ⟨data, ext, hout.symm, hext⟩⟩
  · rw [if_neg hflag] at h
    cases h
    exact ⟨hparse, hfirst, hcluster, hvalid, fun hcon => absurd hcon hflag⟩

theorem Device.Opens.fromDevice {d : Device} {rb : Rootblock} (h : d.Opens rb) :
    ∃ v, Volume.fromDevice d = .ok v ∧ v.rootblock = rb := by
  rw [Volume.fromDevice_eq_mount h.parse h.first h.cluster, Volume.mount, h.valid, ok_bind]
  by_cases hflag : rb.hasExtension = true
  · obtain ⟨data, ext, hread, hext⟩ := h.ext hflag
    have hout := BlockCache.outcome_new d rb.extension rb.reservedBlksize
    rw [if_pos hflag]
    cases hcache : BlockCache.readReserved d rb.extension rb.reservedBlksize .new with
    | error f c =>
        rw [hcache, hread] at hout
        cases hout
    | ok data' c =>
        rw [hcache, hread] at hout
        cases hout
        dsimp only
        rw [hext, ok_bind]
        exact ⟨_, rfl, rfl⟩
  · rw [if_neg hflag]
    exact ⟨_, rfl, rfl⟩

/-- The devices differ at most in the datestamp and in the name of the cluster at `block`. -/
structure Device.RenamedAt (block : ℕ) (d d' : Device) : Prop where
  total : d'.total = d.total
  sectors : ∀ b, b ≠ block → d'.sectors b = d.sectors b
  bytes : ∀ i n, (i + n ≤ 8 ∨ 12 ≤ i) → (i + n ≤ 0x14 ∨ 0x34 ≤ i) →
    Window (d.sectors block).val (d'.sectors block).val i n

namespace Device

variable {d d' : Device} {block : ℕ}

theorem RenamedAt.symm (h : RenamedAt block d d') : RenamedAt block d' d :=
  ⟨h.total.symm, fun b hb => (h.sectors b hb).symm, fun i n h₁ h₂ => (h.bytes i n h₁ h₂).symm⟩

theorem RenamedAt.window (h : RenamedAt block d d') (b : ℕ) {i n : ℕ} (h₁ : i + n ≤ 8 ∨ 12 ≤ i)
    (h₂ : i + n ≤ 0x14 ∨ 0x34 ≤ i) : Window (d.sectors b).val (d'.sectors b).val i n := by
  by_cases hb : b = block
  · rw [hb]
    exact h.bytes i n h₁ h₂
  · rw [h.sectors b hb]
    exact Window.refl _ i n

theorem bytesAt_one (d : Device) (b : ℕ) : d.bytesAt b 1 = (d.sectors b).val := by
  rw [d.bytesAt_succ b 0]
  exact List.append_nil _

theorem readReserved_eq_ok {rbs b : ℕ} {data : Bytes} :
    d.readReserved rbs b = .ok data ↔
      max (rbs / SECTOR_SIZE) 1 * SECTOR_SIZE ≤ rbs ∧ b + max (rbs / SECTOR_SIZE) 1 ≤ d.total ∧
        data = d.bytesAt b (max (rbs / SECTOR_SIZE) 1) ++
          List.replicate (rbs - max (rbs / SECTOR_SIZE) 1 * SECTOR_SIZE) 0 := by
  unfold Device.readReserved Device.readBlocks
  by_cases hsize : rbs < max (rbs / SECTOR_SIZE) 1 * SECTOR_SIZE
  · rw [if_pos hsize]
    exact ⟨fun h => by simp at h, fun h => by omega⟩
  · rw [if_neg hsize]
    by_cases hend : d.total < b + max (rbs / SECTOR_SIZE) 1
    · rw [if_pos hend]
      exact ⟨fun h => by simp at h, fun h => by omega⟩
    · rw [if_neg hend]
      constructor
      · intro h
        cases h
        exact ⟨not_lt.1 hsize, not_lt.1 hend, rfl⟩
      · rintro ⟨-, -, rfl⟩
        rfl

theorem readReserved_length {rbs b : ℕ} {data : Bytes} (hd : d.readReserved rbs b = .ok data) :
    data.length = rbs := by
  obtain ⟨hsize, -, rfl⟩ := readReserved_eq_ok.1 hd
  rw [List.length_append, length_bytesAt, List.length_replicate]
  exact Nat.add_sub_cancel' hsize

/-- The first two bytes of a block lie in its first sector. -/
theorem readReserved_head {rbs b : ℕ} {data : Bytes} (hd : d.readReserved rbs b = .ok data) :
    be16 data 0 = be16 (d.sectors b).val 0 := by
  obtain ⟨-, -, rfl⟩ := readReserved_eq_ok.1 hd
  obtain ⟨n, hn⟩ : ∃ n, max (rbs / SECTOR_SIZE) 1 = n + 1 :=
    ⟨max (rbs / SECTOR_SIZE) 1 - 1, by omega⟩
  have hlen : (d.sectors b).val.length = 512 := (d.sectors b).property
  rw [hn, bytesAt_succ, List.append_assoc]
  apply be16_eq_of_take
  rw [List.drop_zero, List.drop_zero, List.take_append_of_le_length (by omega)]

theorem readReserved_of_total {rbs b : ℕ} {data : Bytes} (htotal : d'.total = d.total)
    (hd : d.readReserved rbs b = .ok data) : ∃ data', d'.readReserved rbs b = .ok data' := by
  obtain ⟨hsize, hend, -⟩ := readReserved_eq_ok.1 hd
  exact ⟨_, readReserved_eq_ok.2 ⟨hsize, by rw [htotal]; exact hend, rfl⟩⟩

end Device

theorem RootblockExt.exists_parse_iff {data : Bytes} :
    (∃ ext, RootblockExt.parse data = .ok ext) ↔
      0x40 ≤ data.length ∧ be16 data 0 = EXTENSIONID := by
  unfold RootblockExt.parse
  by_cases hlen : data.length < 0x40
  · rw [if_pos hlen]
    constructor
    · rintro ⟨ext, h⟩
      cases h
    · omega
  · rw [if_neg hlen]
    by_cases hid : be16 data 0 ≠ EXTENSIONID
    · rw [if_pos hid]
      constructor
      · rintro ⟨ext, h⟩
        cases h
      · exact fun h => absurd h.2 hid
    · rw [if_neg hid]
      exact ⟨fun _ => ⟨not_lt.1 hlen, not_not.1 hid⟩, fun _ => ⟨_, rfl⟩⟩

/-- A device whose cluster is renamed can still be opened. -/
theorem Device.RenamedAt.reopen {d d' : Device} {block : ℕ} (h : RenamedAt block d d') {v : Volume}
    (hv : Volume.fromDevice d = .ok v) : ∃ v', Volume.fromDevice d' = .ok v' := by
  have ho := Volume.opens_of_fromDevice hv
  have hlen : (d.bytesAt 2 1).length = 512 := d.length_bytesAt 2 1
  have hlen' : (d'.bytesAt 2 1).length = 512 := d'.length_bytesAt 2 1
  have hwin : ∀ i n, (i + n ≤ 8 ∨ 12 ≤ i) → (i + n ≤ 0x14 ∨ 0x34 ≤ i) →
      Window (d.bytesAt 2 1) (d'.bytesAt 2 1) i n := by
    intro i n h₁ h₂
    rw [d.bytesAt_one, d'.bytesAt_one]
    exact h.window 2 h₁ h₂
  have hparse := parse_window (by omega) (by omega) (hwin 0 8 (by omega) (by omega))
    (hwin 0x34 8 (by omega) (by omega)) (hwin 0x40 4 (by omega) (by omega))
    (hwin 0x48 440 (by omega) (by omega))
  rw [ho.parse] at hparse
  have ho' : d'.Opens _ :=
    { parse := hparse
      first := by
        rw [h.total]
        exact ho.first
      cluster := by
        rw [h.total]
        exact ho.cluster
      valid := ho.valid
      ext := fun hflag => by
        obtain ⟨data, ext, hread, hext⟩ := ho.ext hflag
        obtain ⟨hsize, hid⟩ := RootblockExt.exists_parse_iff.1 ⟨ext, hext⟩
        obtain ⟨data', hread'⟩ := readReserved_of_total h.total hread
        have hhead : be16 (d'.sectors v.rootblock.extension).val 0 =
            be16 (d.sectors v.rootblock.extension).val 0 :=
          (h.window v.rootblock.extension (i := 0) (n := 8) (by omega) (by omega)).be16
            (by omega) (by omega)
        have hparse' : ∃ ext', RootblockExt.parse data' = .ok ext' := by
          rw [RootblockExt.exists_parse_iff, readReserved_length hread', readReserved_head hread',
            hhead, ← readReserved_head hread, ← readReserved_length hread]
          exact ⟨hsize, hid⟩
        obtain ⟨ext', hext'⟩ := hparse'
        exact ⟨data', ext', hread', hext'⟩ }
  obtain ⟨v', hv', -⟩ := ho'.fromDevice
  exact ⟨v', hv'⟩

/-! ## Writing the name -/

namespace Writer

theorem lift_of_ok {α : Type} {e : Except Fault α} {a : α} (he : e = .ok a) (w : Writer) :
    (liftM e : WriterM α) w = .ok a w := by
  rw [he]
  rfl

theorem lift_of_error {α : Type} {e : Except Fault α} {f : Fault} (he : e = .error f)
    (w : Writer) : (liftM e : WriterM α) w = .error f w := by
  rw [he]
  rfl

section Whole

variable {w : Writer} {name p : Name}

section Read

variable (hp : slicePrefix (min (asBytes name).length 30) name = .ok p)
  (h : w.firstreserved + w.vol.rootblock.rblkcluster ≤ w.vol.dev.total)

include hp h

variable (hpos : 0 < w.vol.rootblock.rblkcluster)

include hpos

end Read

end Whole

end Writer

/-! ## The devices before and after -/

theorem Window.take {d d' : Bytes} {i n : ℕ} (h : Window d d' i n) (m : ℕ) :
    Window (d.take m) (d'.take m) i n := by
  have hpart : ∀ l : Bytes, ((l.take m).drop i).take n = ((l.drop i).take n).take (m - i) := by
    intro l
    rw [List.drop_take, List.take_take, List.take_take, Nat.min_comm]
  unfold Window at h ⊢
  rw [hpart, hpart, h]

namespace Device

end Device

namespace Writer

/-! ## Renaming the volume -/

end Writer

end Pfs3
