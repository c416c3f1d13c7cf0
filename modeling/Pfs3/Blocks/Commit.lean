import Pfs3.Faults.Flush
import Pfs3.Walk.Readers

/-!
# Committing queued blocks

On a volume of any geometry: after a commit the reserved blocks hold what was queued, as far as
their sectors have room for it, and every other one behind the rootblock cluster is unchanged.
-/

namespace Pfs3

open ByteList Stop

/-! ## A cache that shows some blocks -/

namespace BlockCache

/-- The blocks with `P` are cached as the device holds them. -/
def Shows (dev : Device) (rbs : ℕ) (P : ℕ → Prop) (c : BlockCache) : Prop :=
  ∀ k e, P k → c.entries.lookup k = some e → dev.readReserved rbs k = .ok e.data

variable {dev : Device} {rbs : ℕ} {P : ℕ → Prop} {c : BlockCache}

theorem Shows.invalidate (h : c.Shows dev rbs P) (block : ℕ) : (c.invalidate block).Shows dev rbs P := by
  intro k e hP hk
  have hl := lookup_filter_ne c.entries block k
  change (c.entries.filter fun p => p.1 != block).lookup k = some e at hk
  rw [hl] at hk
  split at hk
  · cases hk
  · exact h k e hP hk

theorem Shows.evict (h : c.Shows dev rbs P) : c.evict.Shows dev rbs P := by
  unfold BlockCache.evict
  split
  · split
    · exact h.invalidate _
    · exact h
  · exact h

theorem readReserved_shows {block : ℕ} (hP : P block) :
    Reads (Shows dev rbs P) Eq (readReserved dev block rbs) (raised (dev.readReserved rbs block)) := by
  intro c hc
  cases hl : c.entries.lookup block with
  | some e =>
      rw [readReserved_hit hl, hc block e hP hl]
      refine ⟨e.data, _, rfl, rfl, fun k e' hPk hk => ?_⟩
      obtain ⟨e'', hk, hdata⟩ := lookup_map_generation _ _ _ _ hk
      rw [← hdata]
      exact hc k e'' hPk hk
  | none =>
      rw [readReserved_miss hl]
      cases hr : dev.readReserved rbs block with
      | error f => exact ⟨_, rfl, hc⟩
      | ok buf =>
          refine ⟨buf, _, rfl, rfl, fun k e hPk hk => ?_⟩
          have hevict : (({ c with generation := c.generation + 1 } : BlockCache).evict).Shows
              dev rbs P := Shows.evict (c := { c with generation := c.generation + 1 }) hc
          simp only [List.lookup_cons] at hk
          by_cases hkb : k = block
          · have hkb' : (k == block) = true := by simpa using hkb
            simp only [hkb', Option.some.injEq] at hk
            rw [← hk, hkb]
            exact hr
          · have hkb' : (k == block) = false := by simpa using hkb
            simp only [hkb'] at hk
            exact hevict k e hPk hk

theorem Coherent.shows {Q : ℕ → Prop} (h : c.Coherent dev rbs Q) : c.Shows dev rbs P :=
  fun k e _ hk => (h k e hk).2

end BlockCache

/-! ## Writes that are done -/

namespace Device

variable {d d' : Device} {ws : List (ℕ × Sector)} {m : EStateM Fault Device Unit}

theorem Attempts.of_ok (h : Attempts d ws m) (hok : m d = .ok () d') : d' = d.puts ws := by
  rcases h with ⟨-, hrun⟩ | ⟨n, -, -, -, hrun⟩
  · rw [hok] at hrun
    injection hrun
  · rw [hok] at hrun
    cases hrun

theorem of_writeBlocks {block count : ℕ} {data : Bytes}
    (h : writeBlocks block count data d = .ok () d') :
    block + count ≤ d.total ∧ d' = d.puts (numbered block (sectorsOf count data)) := by
  obtain ⟨hw, ht, hl⟩ := passes_of_writeBlocks h
  exact ⟨ht, (attempts_writeBlocks hw ht hl).of_ok h⟩

theorem of_writeReservedBlocks {block rescluster : ℕ} {data : Bytes}
    (h : writeReservedBlocks block data rescluster d = .ok () d') :
    (∀ i < rescluster, block + i < d.total) ∧ d' = d.puts (reservedWrites rescluster block data) := by
  unfold writeReservedBlocks at h
  unfold reservedWrites
  have hrange : ∀ i, i < rescluster ↔ i ∈ List.range rescluster := fun i => List.mem_range.symm
  simp only [hrange]
  generalize List.range rescluster = l at h ⊢
  induction l generalizing d with
  | nil =>
      cases h
      exact ⟨fun i hi => absurd hi List.not_mem_nil, rfl⟩
  | cons i l ih =>
      obtain ⟨_, d₁, hfirst, hrest⟩ := of_bind_eq_ok h
      obtain ⟨hin, hd₁⟩ := of_writeBlocks hfirst
      have hone : numbered (block + i)
          (sectorsOf 1 (Sector.ofBytes (data.drop (i * SECTOR_SIZE))).val) =
          [(block + i, Sector.ofBytes (data.drop (i * SECTOR_SIZE)))] := by
        simp [sectorsOf, numbered, Sector.ofBytes_val]
      rw [hone] at hd₁
      obtain ⟨hall, hd'⟩ := ih hrest
      have htotal : d₁.total = d.total := by rw [hd₁]; rfl
      refine ⟨fun j hj => ?_, ?_⟩
      · rcases List.mem_cons.mp hj with rfl | hj
        · omega
        · exact htotal ▸ hall j hj
      · rw [hd', hd₁]
        rfl

theorem sectors_puts_of_not_mem {i : ℕ} (ws : List (ℕ × Sector)) : ∀ {d : Device},
    (∀ p ∈ ws, p.1 ≠ i) → (d.puts ws).sectors i = d.sectors i := by
  induction ws with
  | nil => exact fun _ => rfl
  | cons p ws ih =>
      intro d h
      have hp : (d.put p.1 p.2).sectors i = d.sectors i :=
        Function.update_of_ne (h p List.mem_cons_self).symm _ _
      rw [puts_cons, ih fun q hq => h q (List.mem_cons_of_mem p hq), hp]

theorem sectors_puts_reservedWrites (d : Device) (n block : ℕ) (data : Bytes) {i : ℕ} (hi : i < n) :
    (d.puts (reservedWrites n block data)).sectors (block + i) =
      Sector.ofBytes (data.drop (i * SECTOR_SIZE)) := by
  induction n with
  | zero => omega
  | succ n ih =>
      have hsplit : reservedWrites (n + 1) block data = reservedWrites n block data ++
          [(block + n, Sector.ofBytes (data.drop (n * SECTOR_SIZE)))] := by
        simp [reservedWrites, List.range_succ]
      rw [hsplit, puts_append]
      by_cases hlast : i = n
      · rw [hlast]
        exact Function.update_self ..
      · have hother : ∀ (d : Device) (s : Sector), (d.puts [(block + n, s)]).sectors (block + i) =
            d.sectors (block + i) := fun d s => Function.update_of_ne (by omega) _ _
        rw [hother, ih (by omega)]

theorem mem_reservedWrites {n block : ℕ} {data : Bytes} {p : ℕ × Sector}
    (h : p ∈ reservedWrites n block data) : block ≤ p.1 ∧ p.1 < block + n := by
  obtain ⟨i, hi, rfl⟩ := List.mem_map.mp h
  have hlt := List.mem_range.mp hi
  exact ⟨Nat.le_add_right _ _, by dsimp only; omega⟩

theorem mem_numbered (ss : List Sector) : ∀ {block : ℕ} {p : ℕ × Sector}, p ∈ numbered block ss →
    block ≤ p.1 ∧ p.1 < block + ss.length := by
  induction ss with
  | nil => exact fun h => absurd h List.not_mem_nil
  | cons s ss ih =>
      intro block p h
      rw [List.length_cons]
      rcases List.mem_cons.mp h with rfl | h
      · exact ⟨le_rfl, by dsimp only; omega⟩
      · obtain ⟨hge, hlt⟩ := ih h
        omega

/-- What a reserved block of `n` sectors keeps of `data`. -/
theorem bytesAt_puts_reservedWrites (d : Device) {n block : ℕ} {data : Bytes}
    (h : n * 512 ≤ data.length) :
    (d.puts (reservedWrites n block data)).bytesAt block n = data.take (n * 512) := by
  refine Eq.trans ?_ (flatMap_sectors (data.take (n * 512)) n (by rw [List.length_take]; omega))
  unfold bytesAt
  rw [List.range'_eq_map_range, List.flatMap_map]
  refine List.flatMap_congr fun i hi => ?_
  have hlt := List.mem_range.mp hi
  have hleft : (Sector.ofBytes (data.drop (i * SECTOR_SIZE))).val = (data.drop (i * 512)).take 512 :=
    Sector.ofBytes_take (by rw [List.length_drop]; change 512 ≤ data.length - i * 512; omega)
  have hright := @Sector.ofBytes_take ((data.take (n * 512)).drop (i * 512)) (by
    rw [List.length_drop, List.length_take]
    omega)
  rw [sectors_puts_reservedWrites d n block data hlt, hleft, hright, List.drop_take, List.take_take,
    Nat.min_eq_left (by omega)]

end Device

/-! ## The flush -/

namespace Writer

variable {w w' : Writer}

/-- A reserved block as the writer sees it: as it is queued, otherwise as on the device. -/
def blockOf (w : Writer) (b : ℕ) : Except Fault Bytes :=
  match w.pendingWrites.lookup b with
  | some data => .ok data
  | none => w.vol.dev.readBlocks b w.rescluster w.resblocksize

theorem readReservedRaw_eq (b : ℕ) (w : Writer) :
    readReservedRaw b w = match w.blockOf b with
      | .ok data => .ok data w
      | .error f => .error f w := by
  unfold readReservedRaw blockOf
  rw [bind_of_ok (rfl : (get : WriterM Writer) _ = .ok _ _)]
  cases w.pendingWrites.lookup b with
  | some data => rfl
  | none =>
      dsimp only
      cases w.vol.dev.readBlocks b w.rescluster w.resblocksize with
      | ok data => rfl
      | error f => rfl

theorem blockOf_writeReserved {blk : ℕ} (d : Bytes) (w : Writer) :
    ∃ w', writeReserved blk d w = .ok () w' ∧
      w'.blockOf = Function.update w.blockOf blk (.ok d) := by
  refine ⟨_, rfl, ?_⟩
  funext b
  unfold blockOf
  dsimp only
  rw [lookup_queueWrite]
  by_cases hb : b = blk
  · rw [if_pos hb, hb, Function.update_self]
  · rw [if_neg hb, Function.update_of_ne hb]
    rfl

theorem of_flushWrites (q : List (ℕ × Bytes)) : ∀ {w : Writer}, flushWrites q w = .ok () w' →
    w' = w.flushedTo (w.vol.dev.puts (sectorWrites w.rescluster q)) q ∧
      ∀ p ∈ q, ∀ i < w.rescluster, p.1 + i < w.vol.dev.total := by
  induction q with
  | nil =>
      intro w h
      cases h
      exact ⟨rfl, fun p hp => absurd hp List.not_mem_nil⟩
  | cons p q ih =>
      intro w h
      obtain ⟨b, data⟩ := p
      rw [flushWrites, bind_of_ok (rfl : (get : WriterM Writer) _ = .ok _ _)] at h
      obtain ⟨_, w₁, hblock, hrest⟩ := of_bind_eq_ok h
      obtain ⟨d, hdev, rfl⟩ := onDev_inv hblock
      obtain ⟨hin, rfl⟩ := Device.of_writeReservedBlocks hdev
      obtain ⟨hw', hall⟩ := ih hrest
      have htotal := (w.vol.dev.puts_fields (Device.reservedWrites w.rescluster b data)).2.2.1
      refine ⟨?_, fun p hp => ?_⟩
      · have hsplit : sectorWrites w.rescluster ((b, data) :: q) =
            Device.reservedWrites w.rescluster b data ++ sectorWrites w.rescluster q := rfl
        rw [hsplit, Device.puts_append]
        exact hw'
      · rcases List.mem_cons.mp hp with rfl | hp
        · exact hin
        · exact fun i hi => htotal ▸ hall p hp i hi

/-- The blocks that have a bit of the reserved bitmap. -/
def OnGrid (w : Writer) (b : ℕ) : Prop := ∃ k, b = w.firstreserved + k * w.rescluster

/-- Two of them that share a sector are one. -/
theorem OnGrid.eq {b b' i j : ℕ} (h : w.OnGrid b) (h' : w.OnGrid b') (hi : i < w.rescluster)
    (hj : j < w.rescluster) (heq : b + i = b' + j) : b = b' := by
  obtain ⟨k, rfl⟩ := h
  obtain ⟨k', rfl⟩ := h'
  have hsum : k * w.rescluster + i = k' * w.rescluster + j := by omega
  have hk : k = k' := by
    have hleft := Nat.add_mul_div_right i k (Nat.lt_of_le_of_lt (Nat.zero_le _) hi)
    have hright := Nat.add_mul_div_right j k' (Nat.lt_of_le_of_lt (Nat.zero_le _) hj)
    rw [Nat.div_eq_of_lt hi, Nat.zero_add] at hleft
    rw [Nat.div_eq_of_lt hj, Nat.zero_add] at hright
    rw [← hleft, ← hright, Nat.add_comm i, Nat.add_comm j, hsum]
  rw [hk]

/-- What a flush of blocks on the grid leaves in one of them. -/
theorem bytesAt_sectorWrites {b : ℕ} (hb : w.OnGrid b) (q : List (ℕ × Bytes)) : ∀ {d : Device},
    (∀ p ∈ q, w.OnGrid p.1) → (q.map Prod.fst).Nodup →
    (∀ p ∈ q, w.rescluster * 512 ≤ p.2.length) →
    (d.puts (sectorWrites w.rescluster q)).bytesAt b w.rescluster =
      match q.lookup b with
      | some data => data.take (w.rescluster * 512)
      | none => d.bytesAt b w.rescluster := by
  induction q with
  | nil => exact fun _ _ _ => rfl
  | cons p q ih =>
      obtain ⟨b', data⟩ := p
      intro d hgrid hnodup hlen
      obtain ⟨hnot, hnodup⟩ := List.nodup_cons.mp hnodup
      have hsplit : sectorWrites w.rescluster ((b', data) :: q) =
          Device.reservedWrites w.rescluster b' data ++ sectorWrites w.rescluster q := rfl
      have hrest := @ih (d.puts (Device.reservedWrites w.rescluster b' data))
        (fun p hp => hgrid p (List.mem_cons_of_mem _ hp)) hnodup
        fun p hp => hlen p (List.mem_cons_of_mem _ hp)
      rw [hsplit, Device.puts_append, hrest, List.lookup_cons]
      by_cases heq : b = b'
      · subst heq
        have hnone : q.lookup b = none := by
          rw [List.lookup_eq_none_iff]
          intro p hp
          have hne : b ≠ p.1 := by
            intro hcon
            have hmem := List.mem_map_of_mem (f := Prod.fst) hp
            rw [← hcon] at hmem
            exact hnot hmem
          simpa using hne
        rw [hnone, beq_self_eq_true]
        exact Device.bytesAt_puts_reservedWrites d (hlen _ List.mem_cons_self)
      · have hne : (b == b') = false := beq_false_of_ne heq
        have hkeep : (d.puts (Device.reservedWrites w.rescluster b' data)).bytesAt b w.rescluster =
            d.bytesAt b w.rescluster := by
          refine Device.bytesAt_congr fun i hi hi' => ?_
          refine Device.sectors_puts_of_not_mem _ fun p hp hcon => heq ?_
          obtain ⟨hge, hlt⟩ := Device.mem_reservedWrites hp
          exact OnGrid.eq (w := w) (i := i - b) (j := p.1 - b') hb
            (hgrid _ List.mem_cons_self) (by omega) (by omega) (by omega)
        rw [hne, hkeep]

/-! ## The commit -/

/-- A commit that succeeds flushes the queue and writes the rootblock cluster. -/
theorem of_updateRootblock (h : updateRootblock w = .ok () w') :
    0 < w.vol.rootblock.rblkcluster ∧
    (∀ p ∈ w.pendingWrites, ∀ i < w.rescluster, p.1 + i < w.vol.dev.total) ∧
    ∃ ws : List (ℕ × Sector), (∀ p ∈ ws, w.firstreserved ≤ p.1 ∧
        p.1 < w.firstreserved + w.vol.rootblock.rblkcluster) ∧
      w' = { w.flushedTo ((w.vol.dev.puts (sectorWrites w.rescluster w.pendingWrites)).puts ws)
          w.pendingWrites with
        pendingWrites := []
        datestamp := w.datestamp + 1 } := by
  rw [updateRootblock_eq] at h
  obtain ⟨_, w₁, hflush, hcommit⟩ := of_bind_eq_ok h
  unfold flushPending at hflush
  rw [bind_of_ok (rfl : (get : WriterM Writer) _ = .ok _ _)] at hflush
  obtain ⟨_, w₂, hset, hflush⟩ := of_bind_eq_ok hflush
  cases hset
  obtain ⟨_, w₃, hwrites, hflush⟩ := of_bind_eq_ok hflush
  obtain ⟨rfl, hin⟩ := of_flushWrites _ hwrites
  cases hflush
  have hmay := mayCommit_of_ok hcommit
  rcases commitCluster_run hmay with ⟨-, hrun⟩ | ⟨n, -, -, -, hrun⟩
  · rw [hrun] at hcommit
    injection hcommit with _ hw'
    refine ⟨hmay.room, hin, _, fun p hp => ?_, hw'.symm⟩
    obtain ⟨hge, hlt⟩ := Device.mem_numbered _ hp
    rw [Device.sectorsOf, List.length_map, List.length_range] at hlt
    exact ⟨hge, hlt⟩
  · rw [hrun] at hcommit
    cases hcommit

theorem mem_of_lookup {q : List (ℕ × Bytes)} {b : ℕ} {data : Bytes} (h : q.lookup b = some data) :
    (b, data) ∈ q := by
  obtain ⟨l₁, l₂, rfl, -⟩ := List.lookup_eq_some_iff.mp h
  exact List.mem_append_right l₁ List.mem_cons_self

/-- What a reserved block keeps of the bytes written to it: those its sectors have room for. -/
def kept (w : Writer) (data : Bytes) : Bytes :=
  data.take (w.rescluster * 512) ++ List.replicate (w.resblocksize - w.rescluster * 512) 0

/-- The queue holds whole blocks of the grid, each once. -/
structure Queued (w : Writer) : Prop where
  grid : ∀ p ∈ w.pendingWrites, w.OnGrid p.1
  nodup : (w.pendingWrites.map Prod.fst).Nodup
  length : ∀ p ∈ w.pendingWrites, p.2.length = w.resblocksize

/-- The sectors of a reserved block. -/
structure Sectors (w : Writer) : Prop where
  rescluster : w.rescluster = w.resblocksize / SECTOR_SIZE
  pos : 0 < w.rescluster

theorem Sectors.max_eq (h : w.Sectors) :
    max (w.resblocksize / SECTOR_SIZE) 1 = w.rescluster := by
  have hpos := h.pos
  rw [← h.rescluster]
  omega

theorem Sectors.le (h : w.Sectors) : w.rescluster * 512 ≤ w.resblocksize := by
  rw [h.rescluster]
  exact Nat.div_mul_le_self _ _

/-- The blocks behind the rootblock cluster, read after a commit. -/
theorem readReserved_commit (hs : w.Sectors) (hq : w.Queued) (h : updateRootblock w = .ok () w')
    {b : ℕ} (hb : w.OnGrid b) (hbehind : w.firstreserved + w.vol.rootblock.rblkcluster ≤ b) :
    w'.vol.dev.readReserved w.resblocksize b = (w.blockOf b).map w.kept := by
  obtain ⟨-, hin, ws, hws, rfl⟩ := of_updateRootblock h
  have hle := hs.le
  have hlen : ∀ p ∈ w.pendingWrites, w.rescluster * 512 ≤ p.2.length := fun p hp => by
    rw [hq.length p hp]
    exact hle
  have hbytes := bytesAt_sectorWrites hb w.pendingWrites (d := w.vol.dev) hq.grid hq.nodup hlen
  have hcluster : ∀ d : Device, (d.puts ws).bytesAt b w.rescluster = d.bytesAt b w.rescluster :=
    fun d => Device.bytesAt_congr fun i hi _ => Device.sectors_puts_of_not_mem _ fun p hp hcon => by
      have hlt := (hws p hp).2
      omega
  have htotal : ((w.vol.dev.puts (sectorWrites w.rescluster w.pendingWrites)).puts ws).total =
      w.vol.dev.total :=
    (Device.puts_fields _ _).2.2.1.trans (Device.puts_fields _ _).2.2.1
  have hs512 : SECTOR_SIZE = 512 := rfl
  change ((w.vol.dev.puts (sectorWrites w.rescluster w.pendingWrites)).puts ws).readReserved
    w.resblocksize b = _
  unfold Device.readReserved
  rw [hs.max_eq]
  unfold Device.readBlocks blockOf
  rw [htotal, hcluster, hbytes, hs512, if_neg (by omega)]
  cases hlook : w.pendingWrites.lookup b with
  | none =>
      unfold Device.readBlocks
      rw [hs512, if_neg (show ¬ w.resblocksize < w.rescluster * 512 by omega)]
      split
      · rfl
      · have hl := w.vol.dev.length_bytesAt b w.rescluster
        refine congrArg Except.ok ?_
        rw [kept, List.take_left' hl]
  | some data =>
      have hmem : (b, data) ∈ w.pendingWrites := mem_of_lookup hlook
      have hlast := hin _ hmem (w.rescluster - 1) (by have hpos := hs.pos; omega)
      have hpos := hs.pos
      dsimp only at hlast ⊢
      rw [if_neg (by omega)]
      rfl

/-- The blocks of the grid behind the rootblock cluster. -/
def Reserved (w : Writer) (b : ℕ) : Prop :=
  w.OnGrid b ∧ w.firstreserved + w.vol.rootblock.rblkcluster ≤ b

/-- After a commit the cache shows the reserved blocks, if it did before. -/
theorem shows_commit (hs : w.Sectors) (hq : w.Queued) (h : updateRootblock w = .ok () w')
    (hc : w.vol.cache.Shows w.vol.dev w.resblocksize w.Reserved) :
    w'.vol.cache.Shows w'.vol.dev w.resblocksize w.Reserved := by
  intro b e hb hlook
  rw [readReserved_commit hs hq h hb.1 hb.2]
  obtain ⟨-, -, ws, -, rfl⟩ := of_updateRootblock h
  change (dropped w.pendingWrites w.vol.cache).entries.lookup b = some e at hlook
  rw [lookup_dropped] at hlook
  split at hlook
  · cases hlook
  · rename_i hnot
    have hread := hc b e hb hlook
    have hnone : w.pendingWrites.lookup b = none := by
      cases hq : w.pendingWrites.lookup b with
      | none => rfl
      | some data => exact absurd (List.mem_map_of_mem (mem_of_lookup hq)) hnot
    have hblock : w.blockOf b = w.vol.dev.readBlocks b w.rescluster w.resblocksize := by
      unfold blockOf
      rw [hnone]
    unfold Device.readReserved at hread
    rw [hs.max_eq] at hread
    have hle := hs.le
    have hs512 : SECTOR_SIZE = 512 := rfl
    rw [hblock, hread]
    refine congrArg Except.ok ?_
    unfold Device.readBlocks at hread
    rw [hs512, if_neg (show ¬ w.resblocksize < w.rescluster * 512 by omega)] at hread
    split at hread
    · cases hread
    · injection hread with hdata
      rw [kept, ← hdata, List.take_left' (w.vol.dev.length_bytesAt b w.rescluster)]

end Writer

end Pfs3
