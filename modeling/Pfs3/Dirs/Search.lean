import Pfs3.Blocks.DataBitmap
import Pfs3.Checked.Total

/-!
# Two walks over directory entries

`find_dir_entry` of the writer and `list_entries` of the reader follow the same entry sizes, but
only the reader checks the entries: it stops at one that is too short or leaves the block, and it
cuts a name off at the end of its entry.  This module says for which bytes both find the same.
-/

namespace Pfs3

open ByteList BlockCache Stop

/-! ## Entries with their positions -/

/-- The entries that `parse_dirblock_entries` lists, each with its position. -/
def placedEntries (data : Bytes) : (n : ℕ) → (offset : ℕ) → List (ℕ × DirEntry)
  | 0, _ => []
  | n + 1, offset =>
      if data.length ≤ offset then []
      else
        match DirEntry.parse data offset with
        | some (entry, next) => (offset, entry) :: placedEntries data n next
        | none => []

theorem map_placedEntries (data : Bytes) (n : ℕ) : ∀ offset : ℕ,
    (placedEntries data n offset).map Prod.snd = parseDirblockEntries data n offset := by
  induction n with
  | zero => exact fun _ => rfl
  | succ n ih =>
      intro offset
      unfold placedEntries parseDirblockEntries
      split
      · rfl
      · cases DirEntry.parse data offset with
        | none => rfl
        | some p =>
            obtain ⟨entry, next⟩ := p
            dsimp only
            rw [List.map_cons, ih next]

/-- The entries that `list_entries` takes from one block, each with its position. -/
def placedInBlock (data : Bytes) : List (ℕ × DirEntry) :=
  if data.length < DIR_BLOCK_HEADER_SIZE + 1 then []
  else if be16 data 0 ≠ DBLKID then []
  else placedEntries data (data.length - DIR_BLOCK_HEADER_SIZE) DIR_BLOCK_HEADER_SIZE

theorem map_placedInBlock (data : Bytes) :
    (placedInBlock data).map Prod.snd = dirblockEntries data := by
  unfold placedInBlock dirblockEntries
  split
  · rfl
  · split
    · rfl
    · exact map_placedEntries _ _ _

/-! ## One block -/

def sizeAt (data : Bytes) (pos : ℕ) : ℕ := (data.getD pos 0).toNat

def nlenAt (data : Bytes) (pos : ℕ) : ℕ := (data.getD (pos + 17) 0).toNat

/-- The name at `pos` with the length that the entry claims for it. -/
def fullName (data : Bytes) (pos : ℕ) : Name :=
  latin1ToString ((data.drop (pos + 18)).take (nlenAt data pos))

/-- From `pos` on, at each position that the entry sizes lead to, the full name lies in the block,
and it matches exactly if the entry is listed under a name that does.  An entry is listed while the
parser has accepted all before it; behind the first listed match anything may stand. -/
def clear (data : Bytes) (name : Name) : (n : ℕ) → (listed : Bool) → (pos : ℕ) → Bool
  | 0, _, _ => true
  | n + 1, listed, pos =>
      if data.length ≤ pos ∨ sizeAt data pos = 0 then true
      else if data.length < pos + 18 + nlenAt data pos then false
      else
        match if listed then DirEntry.parse data pos else none with
        | some (entry, next) =>
            if nameEqCi entry.name name then nameEqCi (fullName data pos) name
            else !nameEqCi (fullName data pos) name && clear data name n true next
        | none =>
            !nameEqCi (fullName data pos) name && clear data name n false (pos + sizeAt data pos)

section Block

variable {data : Bytes} {name : Name}

theorem parse_eq_none (h : data.length ≤ pos ∨ sizeAt data pos = 0) :
    DirEntry.parse data pos = none := by
  unfold DirEntry.parse
  split
  · rfl
  · rcases h with h | h
    · contradiction
    · exact if_pos h

theorem next_of_parse {pos next : ℕ} {entry : DirEntry}
    (h : DirEntry.parse data pos = some (entry, next)) : next = pos + sizeAt data pos := by
  unfold DirEntry.parse at h
  split at h
  · cases h
  · dsimp only at h
    split at h
    · cases h
    · split at h
      · cases h
      · injection h with h
        exact (congrArg Prod.snd h).symm

/-- One step of the writer's walk. -/
theorem findInBlock_succ {pos : ℕ} (n : ℕ) (hpos : ¬ data.length ≤ pos)
    (hsize : sizeAt data pos ≠ 0) :
    Writer.findInBlock data.length data name (n + 1) pos =
      if data.length < pos + 18 + nlenAt data pos then .error .panic
      else if nameEqCi (fullName data pos) name then .ok (some pos)
      else Writer.findInBlock data.length data name n (pos + sizeAt data pos) := by
  have hs : ¬ (data.getD pos 0).toNat = 0 := hsize
  rw [Writer.findInBlock, if_neg hpos, readU8_ok (by omega), ok_bind, if_neg hs]
  by_cases hlen : pos + 17 < data.length
  · rw [readU8_ok hlen, ok_bind]
    rfl
  · rw [if_pos (by omega), readU8, if_neg hlen]
    rfl

theorem le_of_mem_placedEntries (k : ℕ) : ∀ pos : ℕ, ∀ p ∈ placedEntries data k pos, pos ≤ p.1 := by
  induction k with
  | zero => exact fun _ _ hp => absurd hp List.not_mem_nil
  | succ k ih =>
      intro pos p hp
      rw [placedEntries] at hp
      split at hp
      · exact absurd hp List.not_mem_nil
      · cases hparse : DirEntry.parse data pos with
        | none =>
            rw [hparse] at hp
            exact absurd hp List.not_mem_nil
        | some q =>
            obtain ⟨entry, next⟩ := q
            rw [hparse] at hp
            rcases List.mem_cons.mp hp with rfl | hp
            · exact le_rfl
            · have hle := ih next p hp
              have hnext := next_of_parse hparse
              omega

theorem findInBlock_end {pos : ℕ} (n : ℕ) (h : data.length ≤ pos ∨ sizeAt data pos = 0) :
    Writer.findInBlock data.length data name n pos = .ok none := by
  cases n with
  | zero => rfl
  | succ n =>
      rw [Writer.findInBlock]
      by_cases hpos : data.length ≤ pos
      · rw [if_pos hpos]
      · rw [if_neg hpos, readU8_ok (by omega), ok_bind]
        exact if_pos (h.resolve_left hpos)

/-- The walk finds nothing in front of its start, and it ends in no error but a panic. -/
theorem findInBlock_cases (n : ℕ) : ∀ pos : ℕ,
    (∃ p, Writer.findInBlock data.length data name n pos = .ok (some p) ∧ pos ≤ p) ∨
    Writer.findInBlock data.length data name n pos = .ok none ∨
    Writer.findInBlock data.length data name n pos = .error .panic := by
  induction n with
  | zero => exact fun _ => Or.inr (Or.inl rfl)
  | succ n ih =>
      intro pos
      by_cases hend : data.length ≤ pos ∨ sizeAt data pos = 0
      · exact Or.inr (Or.inl (findInBlock_end _ hend))
      · obtain ⟨hpos, hsize⟩ := not_or.mp hend
        rw [findInBlock_succ n hpos hsize]
        split
        · exact Or.inr (Or.inr rfl)
        · split
          · exact Or.inl ⟨pos, rfl, le_rfl⟩
          · rcases ih (pos + sizeAt data pos) with ⟨p, hp, hle⟩ | hnone | hpanic
            · exact Or.inl ⟨p, hp, by omega⟩
            · exact Or.inr (Or.inl hnone)
            · exact Or.inr (Or.inr hpanic)

theorem findInBlock_ne_of_lt {n pos p : ℕ} (h : p < pos) :
    Writer.findInBlock data.length data name n pos ≠ .ok (some p) := by
  intro hcon
  rcases @findInBlock_cases data name n pos with ⟨q, hq, hle⟩ | hq | hq
  · rw [hcon] at hq
    injection hq with hq
    injection hq with hq
    omega
  · rw [hcon] at hq
    cases hq
  · rw [hcon] at hq
    cases hq

/-- Behind an entry that the parser refuses nothing is listed. -/
theorem findInBlock_unlisted_iff (n : ℕ) : ∀ pos : ℕ,
    Writer.findInBlock data.length data name n pos = .ok none ↔ clear data name n false pos = true := by
  induction n with
  | zero => exact fun _ => ⟨fun _ => rfl, fun _ => rfl⟩
  | succ n ih =>
      intro pos
      rw [clear]
      by_cases hend : data.length ≤ pos ∨ sizeAt data pos = 0
      · rw [if_pos hend, findInBlock_end _ hend]
        exact ⟨fun _ => rfl, fun _ => rfl⟩
      · obtain ⟨hpos, hsize⟩ := not_or.mp hend
        rw [if_neg hend, findInBlock_succ n hpos hsize]
        by_cases hlen : data.length < pos + 18 + nlenAt data pos
        · rw [if_pos hlen, if_pos hlen]
          exact ⟨fun h => (by cases h), fun h => (by cases h)⟩
        · rw [if_neg hlen, if_neg hlen]
          cases hfull : nameEqCi (fullName data pos) name with
          | true => exact ⟨fun h => (by cases h), fun h => (by cases h)⟩
          | false => exact ih (pos + sizeAt data pos)

/-- The writer's walk finds the first listed match if and only if the block is clear. -/
theorem findInBlock_eq_iff (n : ℕ) : ∀ k pos : ℕ, data.length ≤ pos + n → data.length ≤ pos + k →
    (Writer.findInBlock data.length data name n pos = .ok (((placedEntries data k pos).find?
      fun p => nameEqCi p.2.name name).map Prod.fst) ↔ clear data name n true pos = true) := by
  induction n with
  | zero =>
      intro k pos hn _
      have hnil : placedEntries data k pos = [] := by
        cases k with
        | zero => rfl
        | succ k => rw [placedEntries, if_pos (by omega)]
      rw [hnil]
      exact ⟨fun _ => rfl, fun _ => rfl⟩
  | succ n ih =>
      intro k pos hn hk
      rw [clear]
      by_cases hend : data.length ≤ pos ∨ sizeAt data pos = 0
      · have hnil : placedEntries data k pos = [] := by
          cases k with
          | zero => rfl
          | succ k =>
              rw [placedEntries, parse_eq_none hend]
              split
              · rfl
              · rfl
        rw [if_pos hend, findInBlock_end _ hend, hnil]
        exact ⟨fun _ => rfl, fun _ => rfl⟩
      · obtain ⟨hpos, hsize⟩ := not_or.mp hend
        obtain ⟨k, rfl⟩ : ∃ j, k = j + 1 := ⟨k - 1, by omega⟩
        rw [if_neg hend, findInBlock_succ n hpos hsize, placedEntries, if_neg hpos, if_pos rfl]
        by_cases hlen : data.length < pos + 18 + nlenAt data pos
        · rw [if_pos hlen, if_pos hlen]
          exact ⟨fun h => (by cases h), fun h => (by cases h)⟩
        · rw [if_neg hlen, if_neg hlen]
          cases hparse : DirEntry.parse data pos with
          | none =>
              cases hfull : nameEqCi (fullName data pos) name with
              | true => exact ⟨fun h => (by cases h), fun h => (by cases h)⟩
              | false => exact findInBlock_unlisted_iff n (pos + sizeAt data pos)
          | some p =>
              obtain ⟨entry, next⟩ := p
              have hnext := next_of_parse hparse
              dsimp only
              rw [List.find?_cons]
              dsimp only
              cases hname : nameEqCi entry.name name with
              | true =>
                  cases hfull : nameEqCi (fullName data pos) name with
                  | true => exact ⟨fun _ => rfl, fun _ => rfl⟩
                  | false =>
                      refine ⟨fun h => absurd h ?_, fun h => (by cases h)⟩
                      exact findInBlock_ne_of_lt (by omega)
              | false =>
                  have htail := ih k next (by omega) (by omega)
                  cases hfull : nameEqCi (fullName data pos) name with
                  | true =>
                      refine ⟨fun h => ?_, fun h => (by cases h)⟩
                      -- the next listed match stands further on
                      injection h with h
                      obtain ⟨q, hq, hfst⟩ := Option.map_eq_some_iff.mp h.symm
                      have hge := le_of_mem_placedEntries _ _ q (List.mem_of_find?_eq_some hq)
                      omega
                  | false =>
                      rw [hnext] at htail
                      rw [hnext]
                      exact htail

end Block

/-! ## A chain of blocks -/

/-- The content of a reserved block, where it can be read. -/
def Device.reservedBytes (dev : Device) (rbs blk : ℕ) : Bytes :=
  (dev.readReserved rbs blk).toOption.getD []

/-- An entry of a directory: its block, the content of the block, and where in it the entry
stands. -/
structure Placed where
  blk : ℕ
  data : Bytes
  pos : ℕ
  entry : DirEntry

/-- The entries that `list_entries` takes from the blocks, in order. -/
def placedInBlocks (dev : Device) (rbs : ℕ) (blks : List ℕ) : List Placed :=
  blks.flatMap fun blk => (placedInBlock (dev.reservedBytes rbs blk)).map fun p =>
    ⟨blk, dev.reservedBytes rbs blk, p.1, p.2⟩

/-- Up to the block with the first listed match, the block numbers are `u32`s and the directory
blocks are clear. -/
def clearBlocks (dev : Device) (rbs : ℕ) (name : Name) : List ℕ → Bool
  | [] => true
  | blk :: rest =>
      let data := dev.reservedBytes rbs blk
      decide (blk < U32) &&
        (be16 data 0 != DBLKID || clear data name data.length true DIR_BLOCK_HEADER_SIZE) &&
        ((placedInBlock data).any (fun p => nameEqCi p.2.name name) || clearBlocks dev rbs name rest)

namespace Checked

/-- The loops of `find_dir_entry`, with the block number added on `u32`. -/
def findDirEntryLoop (name : Name) : List (ℕ × ℕ) → WriterM (ℕ × Bytes × ℕ)
  | [] => fail (.notFound (String.ofList name))
  | (blocknr, i) :: rest => do
      let blk ← addU32 blocknr i
      let data ← Writer.readReservedRaw blk
      let id ← readU16 data 0
      if id ≠ DBLKID then findDirEntryLoop name rest
      else
        let w ← get
        match ← Writer.findInBlock w.resblocksize data name w.resblocksize DIR_BLOCK_HEADER_SIZE with
        | some pos => pure (blk, data, pos)
        | none => findDirEntryLoop name rest

/-- Find a directory entry by name, returning block number, block data and entry offset. -/
def findDirEntry (dirAnode : ℕ) (name : Name) : WriterM (ℕ × Bytes × ℕ) := do
  let chain ← Writer.getChain dirAnode
  findDirEntryLoop name (rounds chain)

/-- On block numbers that are `u32`s the addition cannot be told from the unchecked one. -/
theorem findDirEntryLoop_eq (name : Name) (ps : List (ℕ × ℕ)) (h : ∀ p ∈ ps, p.1 + p.2 < U32) :
    findDirEntryLoop name ps = Writer.findDirEntryLoop name (ps.map fun p => p.1 + p.2) := by
  induction ps with
  | nil => rfl
  | cons p ps ih =>
      obtain ⟨blocknr, i⟩ := p
      have htail := ih fun p hp => h p (List.mem_cons_of_mem _ hp)
      rewrite [findDirEntryLoop, List.map_cons, Writer.findDirEntryLoop,
        addU32_ok (h _ List.mem_cons_self), lift_ok_bind, htail]
      rfl

end Checked

/-- A writer between two calls: nothing is queued, and the cache shows the device. -/
structure Writer.Committed (w : Writer) : Prop where
  cache : w.vol.cache.Mirrors w.vol.dev w.resblocksize
  anodes : w.vol.anodes.Valid
  anodesRbs : w.vol.anodes.reservedBlksize = w.resblocksize
  rescluster : w.rescluster = w.resblocksize / SECTOR_SIZE
  rescluster_pos : 0 < w.rescluster
  pending : w.pendingWrites = []

/-- The result of a search against the first listed match. -/
def Finds (name : Name) (listed : Option Placed) (result : EStateM.Result Fault Writer
    (ℕ × Bytes × ℕ)) : Prop :=
  match listed with
  | none => ∃ s, result = .error (.err (.notFound (String.ofList name))) s
  | some p => ∃ s, result = .ok (p.blk, p.data, p.pos) s

section Chain

variable {w : Writer} {name : Name}

theorem Writer.Committed.readReservedRaw (hw : w.Committed) {blk : ℕ} {data : Bytes}
    (h : w.vol.dev.readReserved w.resblocksize blk = .ok data) :
    readReservedRaw blk w = .ok data w := by
  have hcluster : max (w.resblocksize / SECTOR_SIZE) 1 = w.rescluster := by
    have hpos := hw.rescluster_pos
    rw [← hw.rescluster]
    omega
  unfold Device.readReserved at h
  rw [hcluster] at h
  unfold Writer.readReservedRaw
  rw [bind_of_ok (rfl : (get : WriterM Writer) _ = .ok _ _), hw.pending, List.lookup_nil, h]
  rfl

theorem reservedBytes_eq {dev : Device} {rbs blk : ℕ} {data : Bytes}
    (h : dev.readReserved rbs blk = .ok data) : dev.reservedBytes rbs blk = data := by
  rw [Device.reservedBytes, h]
  rfl

/-- One round of the search. -/
theorem findDirEntryLoop_cons (hw : w.Committed) {blocknr i : ℕ} {data : Bytes}
    (hblk : blocknr + i < U32)
    (hread : w.vol.dev.readReserved w.resblocksize (blocknr + i) = .ok data)
    (hlen : data.length = w.resblocksize) (ps : List (ℕ × ℕ)) :
    Checked.findDirEntryLoop name ((blocknr, i) :: ps) w =
      if be16 data 0 ≠ DBLKID then Checked.findDirEntryLoop name ps w
      else
        match Writer.findInBlock data.length data name data.length DIR_BLOCK_HEADER_SIZE with
        | .error f => .error f w
        | .ok (some pos) => .ok (blocknr + i, data, pos) w
        | .ok none => Checked.findDirEntryLoop name ps w := by
  have hpos := hw.rescluster_pos
  have hsize : 2 ≤ data.length := by
    have hdiv := Nat.div_mul_le_self w.resblocksize SECTOR_SIZE
    have hone : 1 * SECTOR_SIZE ≤ w.resblocksize / SECTOR_SIZE * SECTOR_SIZE :=
      Nat.mul_le_mul_right _ (hw.rescluster ▸ hpos)
    have hs : SECTOR_SIZE = 512 := rfl
    omega
  rw [Checked.findDirEntryLoop, addU32_ok hblk, lift_ok_bind,
    bind_of_ok (hw.readReservedRaw hread), readU16_ok (by omega), lift_ok_bind]
  split
  · rfl
  · rw [bind_of_ok (rfl : (get : WriterM Writer) _ = .ok _ _), hlen]
    rcases Writer.findInBlock w.resblocksize data name w.resblocksize DIR_BLOCK_HEADER_SIZE with
      f | _ | pos
    · rfl
    · rfl
    · rfl

/-- A match is found where the walk of its block finds it. -/
theorem of_findDirEntryLoop_ok (hw : w.Committed) (ps : List (ℕ × ℕ))
    (hread : ∀ p ∈ ps, ∃ data, w.vol.dev.readReserved w.resblocksize (p.1 + p.2) = .ok data)
    {blk pos : ℕ} {data : Bytes} {s : Writer}
    (h : Checked.findDirEntryLoop name ps w = .ok (blk, data, pos) s) :
    data = w.vol.dev.reservedBytes w.resblocksize blk ∧
      Writer.findInBlock data.length data name data.length DIR_BLOCK_HEADER_SIZE =
        .ok (some pos) := by
  induction ps with
  | nil => cases h
  | cons p ps ih =>
      obtain ⟨blocknr, i⟩ := p
      have htail := ih fun p hp => hread p (List.mem_cons_of_mem _ hp)
      obtain ⟨d, hd⟩ := hread _ List.mem_cons_self
      by_cases hblk : blocknr + i < U32
      · rw [findDirEntryLoop_cons hw hblk hd (Device.length_of_readBlocks hd)] at h
        split at h
        · exact htail h
        · cases hfind : Writer.findInBlock d.length d name d.length DIR_BLOCK_HEADER_SIZE with
          | error f =>
              rw [hfind] at h
              cases h
          | ok r =>
              rw [hfind] at h
              cases r with
              | none => exact htail h
              | some pos =>
                  cases h
                  exact ⟨(reservedBytes_eq hd).symm, hfind⟩
      · rw [Checked.findDirEntryLoop, addU32, if_neg hblk] at h
        cases h

theorem mem_placedInBlocks {dev : Device} {rbs : ℕ} {blks : List ℕ} {q : Placed}
    (h : q ∈ placedInBlocks dev rbs blks) :
    q.data = dev.reservedBytes rbs q.blk ∧ (q.pos, q.entry) ∈ placedInBlock q.data := by
  obtain ⟨blk, -, hq⟩ := List.mem_flatMap.mp h
  obtain ⟨p, hp, rfl⟩ := List.mem_map.mp hq
  exact ⟨rfl, hp⟩

theorem placedInBlock_of_dirblock {data : Bytes} (hlen : DIR_BLOCK_HEADER_SIZE + 1 ≤ data.length)
    (hid : be16 data 0 = DBLKID) : placedInBlock data =
      placedEntries data (data.length - DIR_BLOCK_HEADER_SIZE) DIR_BLOCK_HEADER_SIZE := by
  unfold placedInBlock
  rw [if_neg (by omega), if_neg fun h => h hid]

theorem not_finds_panic {listed : Option Placed} {s : Writer} :
    ¬ Finds name listed (.error .panic s) := by
  cases listed with
  | none => exact fun ⟨_, h⟩ => by cases h
  | some p => exact fun ⟨_, h⟩ => by cases h

theorem Writer.Committed.lt_length (hw : w.Committed) :
    DIR_BLOCK_HEADER_SIZE + 1 ≤ w.resblocksize := by
  have hpos := hw.rescluster_pos
  have hdiv := Nat.div_mul_le_self w.resblocksize SECTOR_SIZE
  have hone : 1 * SECTOR_SIZE ≤ w.resblocksize / SECTOR_SIZE * SECTOR_SIZE :=
    Nat.mul_le_mul_right _ (hw.rescluster ▸ hpos)
  have hs : SECTOR_SIZE = 512 := rfl
  have hd : DIR_BLOCK_HEADER_SIZE = 20 := rfl
  omega

/-- A directory block, in front of the blocks `blks`. -/
theorem finds_block_iff (hw : w.Committed) {ps : List (ℕ × ℕ)} {blk : ℕ} {data : Bytes}
    (hread : ∀ p ∈ ps, ∃ data, w.vol.dev.readReserved w.resblocksize (p.1 + p.2) = .ok data)
    (hlen : DIR_BLOCK_HEADER_SIZE + 1 ≤ data.length) (hid : be16 data 0 = DBLKID)
    {blks : List ℕ} {rest : Bool}
    (ih : Finds name ((placedInBlocks w.vol.dev w.resblocksize blks).find?
      fun p => nameEqCi p.entry.name name) (Checked.findDirEntryLoop name ps w) ↔ rest = true) :
    Finds name ((((placedInBlock data).find? fun p => nameEqCi p.2.name name).map
        fun p => (⟨blk, data, p.1, p.2⟩ : Placed)).or
          ((placedInBlocks w.vol.dev w.resblocksize blks).find? fun p => nameEqCi p.entry.name name))
        (match Writer.findInBlock data.length data name data.length DIR_BLOCK_HEADER_SIZE with
          | .error f => .error f w
          | .ok (some pos) => .ok (blk, data, pos) w
          | .ok none => Checked.findDirEntryLoop name ps w) ↔
      (clear data name data.length true DIR_BLOCK_HEADER_SIZE &&
        ((placedInBlock data).any (fun p => nameEqCi p.2.name name) || rest)) = true := by
  have hblock := @findInBlock_eq_iff data name data.length
    (data.length - DIR_BLOCK_HEADER_SIZE) DIR_BLOCK_HEADER_SIZE (by omega) (by omega)
  rw [← placedInBlock_of_dirblock hlen hid] at hblock
  have hany : (placedInBlock data).any (fun p => nameEqCi p.2.name name) =
      ((placedInBlock data).find? fun p => nameEqCi p.2.name name).isSome :=
    (List.isSome_find? ..).symm
  rw [hany]
  cases hclear : clear data name data.length true DIR_BLOCK_HEADER_SIZE with
  | true =>
      rw [hblock.mpr hclear]
      cases (placedInBlock data).find? fun p => nameEqCi p.2.name name with
      | none => exact ih
      | some q => exact ⟨fun _ => rfl, fun _ => ⟨w, rfl⟩⟩
  | false =>
      have hnot := mt hblock.mp (by rw [hclear]; exact Bool.false_ne_true)
      refine ⟨fun h => absurd h ?_, fun h => (by cases h)⟩
      rcases @findInBlock_cases data name data.length DIR_BLOCK_HEADER_SIZE with
        ⟨pos, hfind, -⟩ | hfind | hfind
      · rw [hfind] at hnot ⊢
        rintro hfinds
        cases hfirst : (placedInBlock data).find? fun p => nameEqCi p.2.name name with
        | some q =>
            rw [hfirst] at hnot hfinds
            obtain ⟨_, heq⟩ := hfinds
            cases heq
            exact hnot rfl
        | none =>
            rw [hfirst] at hfinds
            cases hlater : (placedInBlocks w.vol.dev w.resblocksize blks).find?
                fun p => nameEqCi p.entry.name name with
            | none =>
                rw [hlater] at hfinds
                obtain ⟨_, heq⟩ := hfinds
                cases heq
            | some q =>
                -- the same block once more: its match would have been the first one here
                rw [hlater] at hfinds
                obtain ⟨_, heq⟩ := hfinds
                have hdata : q.data = data := by
                  injection heq with heq
                  exact (congrArg (fun t => t.2.1) heq).symm
                have hmem := (mem_placedInBlocks (List.mem_of_find?_eq_some hlater)).2
                have hname := List.find?_some hlater
                rw [hdata] at hmem
                exact absurd hname (List.find?_eq_none.mp hfirst _ hmem)
      · rw [hfind] at hnot ⊢
        rintro hfinds
        cases hfirst : (placedInBlock data).find? fun p => nameEqCi p.2.name name with
        | none =>
            rw [hfirst] at hnot
            exact hnot rfl
        | some q =>
            rw [hfirst] at hfinds
            obtain ⟨s, heq⟩ := hfinds
            obtain ⟨-, hagain⟩ := of_findDirEntryLoop_ok hw ps hread heq
            rw [hfind] at hagain
            cases hagain
      · rw [hfind]
        exact not_finds_panic

/-- The search finds the first listed match if and only if the blocks are clear. -/
theorem finds_iff (hw : w.Committed) (ps : List (ℕ × ℕ))
    (hread : ∀ p ∈ ps, ∃ data, w.vol.dev.readReserved w.resblocksize (p.1 + p.2) = .ok data) :
    Finds name ((placedInBlocks w.vol.dev w.resblocksize (ps.map fun p => p.1 + p.2)).find?
        fun p => nameEqCi p.entry.name name) (Checked.findDirEntryLoop name ps w) ↔
      clearBlocks w.vol.dev w.resblocksize name (ps.map fun p => p.1 + p.2) = true := by
  induction ps with
  | nil => exact ⟨fun _ => rfl, fun _ => ⟨w, rfl⟩⟩
  | cons p ps ih =>
      obtain ⟨blocknr, i⟩ := p
      have hrest : ∀ p ∈ ps, ∃ data, w.vol.dev.readReserved w.resblocksize (p.1 + p.2) = .ok data :=
        fun p hp => hread p (List.mem_cons_of_mem _ hp)
      obtain ⟨data, hdata⟩ := hread _ List.mem_cons_self
      dsimp only at hdata
      have hbytes := reservedBytes_eq hdata
      have hlen : data.length = w.resblocksize := Device.length_of_readBlocks hdata
      have ih := ih hrest
      rw [List.map_cons]
      generalize hblks : ps.map (fun p => p.1 + p.2) = blks at ih
      have hcons : placedInBlocks w.vol.dev w.resblocksize ((blocknr + i) :: blks) =
          ((placedInBlock data).map fun p => ⟨blocknr + i, data, p.1, p.2⟩) ++
            placedInBlocks w.vol.dev w.resblocksize blks := by
        rw [placedInBlocks, List.flatMap_cons, hbytes]
        rfl
      rw [hcons, List.find?_append, List.find?_map, clearBlocks, hbytes]
      dsimp only
      by_cases hblk : blocknr + i < U32
      · rw [findDirEntryLoop_cons hw hblk hdata hlen, decide_eq_true hblk, Bool.true_and]
        by_cases hid : be16 data 0 = DBLKID
        · have hne : (be16 data 0 != DBLKID) = false := by rw [hid]; rfl
          rw [if_neg fun h => h hid, hne, Bool.false_or]
          exact finds_block_iff hw hrest (by rw [hlen]; exact hw.lt_length) hid
            ih
        · have hne : (be16 data 0 != DBLKID) = true := bne_iff_ne.mpr hid
          have hnil : placedInBlock data = [] := by
            unfold placedInBlock
            rw [if_pos hid, ite_self]
          rw [if_pos hid, hne, hnil]
          exact ih
      · rw [decide_eq_false hblk, Bool.false_and, Bool.false_and, Checked.findDirEntryLoop, addU32,
          if_neg hblk]
        exact ⟨fun h => absurd h not_finds_panic, fun h => (by cases h)⟩

/-! ## The two walks -/

theorem listBlocks_eq {dev : Device} {r : AnodeReader} (blks : List ℕ) :
    ∀ {c c' : BlockCache} {entries : List DirEntry}, c.Mirrors dev r.reservedBlksize →
      r.listBlocks dev blks c = .ok entries c' →
      (∀ blk ∈ blks, ∃ data, dev.readReserved r.reservedBlksize blk = .ok data) ∧
        entries = (placedInBlocks dev r.reservedBlksize blks).map Placed.entry := by
  induction blks with
  | nil =>
      intro c c' entries _ h
      cases h
      exact ⟨fun _ hb => absurd hb List.not_mem_nil, rfl⟩
  | cons blk rest ih =>
      intro c c' entries hc h
      unfold AnodeReader.listBlocks at h
      obtain ⟨data, c₁, hread, h⟩ := of_bind_eq_ok h
      obtain ⟨tail, c₂, htail, h⟩ := of_bind_eq_ok h
      cases h
      have hreads := @readReserved_reads dev r.reservedBlksize (fun _ => True) blk trivial
      cases hdev : dev.readReserved r.reservedBlksize blk with
      | error f =>
          rw [hdev] at hreads
          obtain ⟨c₀, hrun, -⟩ := hreads.raise hc
          rw [hread] at hrun
          cases hrun
      | ok b =>
          rw [hdev] at hreads
          obtain ⟨_, c₀, hrun, rfl, hc₁⟩ := hreads.ok hc
          rw [hread] at hrun
          cases hrun
          obtain ⟨hrest, rfl⟩ := ih hc₁ htail
          refine ⟨fun x hx => ?_, ?_⟩
          · rcases List.mem_cons.mp hx with rfl | hx
            · exact ⟨_, hdev⟩
            · exact hrest x hx
          · have hcons : placedInBlocks dev r.reservedBlksize (blk :: rest) =
                ((placedInBlock data).map fun p => ⟨blk, data, p.1, p.2⟩) ++
                  placedInBlocks dev r.reservedBlksize rest := by
              rw [placedInBlocks, List.flatMap_cons, reservedBytes_eq hdev]
              rfl
            rw [hcons, List.map_append, List.map_map, ← map_placedInBlock]
            rfl

/-- A reader of the cache, run by the writer. -/
theorem of_onVol_onCache {α : Type} {f : Volume → Device → CacheM α} {a : α} {w' : Writer}
    (h : Writer.onVol (do
      let v ← get
      Volume.onCache (f v)) w = .ok a w') :
    ∃ c, f w.vol w.vol.dev w.vol.cache = .ok a c ∧
      w' = Writer.setVol { w.vol with cache := c } w := by
  change zoom Writer.vol Writer.setVol (Volume.onCache (f w.vol)) w = _ at h
  unfold zoom Volume.onCache zoom at h
  cases hf : f w.vol w.vol.dev w.vol.cache with
  | error e c =>
      rw [hf] at h
      cases h
  | ok b c =>
      rw [hf] at h
      cases h
      exact ⟨c, rfl, rfl⟩

theorem Writer.Committed.setCache (hw : w.Committed) {c : BlockCache}
    (hc : c.Mirrors w.vol.dev w.resblocksize) :
    (setVol { w.vol with cache := c } w).Committed :=
  ⟨hc, hw.anodes, hw.anodesRbs, hw.rescluster, hw.rescluster_pos, hw.pending⟩

/-- What the writer's search finds against what the reader lists. -/
theorem findDirEntry_finds_iff {w₁ w₂ : Writer} (hw : w.Committed) {dirAnode : ℕ}
    {chain : List Anode} {entries : List DirEntry}
    (hchain : Writer.getChain dirAnode w = .ok chain w₁)
    (hlist : Writer.onVol (Volume.listDirByAnode dirAnode) w = .ok entries w₂) (name : Name) :
    let placed := placedInBlocks w.vol.dev w.resblocksize (AnodeReader.chainBlocks chain)
    entries = placed.map Placed.entry ∧
      (Finds name (placed.find? fun p => nameEqCi p.entry.name name)
          (Checked.findDirEntry dirAnode name w) ↔
        clearBlocks w.vol.dev w.resblocksize name (AnodeReader.chainBlocks chain) = true) := by
  obtain ⟨c₁, hrun, hw₁⟩ := of_onVol_onCache hchain
  obtain ⟨c₂, hrun', -⟩ := of_onVol_onCache hlist
  obtain ⟨chain', c₃, hagain, hblocks⟩ := of_bind_eq_ok hrun'
  rw [hrun] at hagain
  cases hagain
  have hcache : w.vol.cache.Mirrors w.vol.dev w.vol.anodes.reservedBlksize := by
    rw [hw.anodesRbs]
    exact hw.cache
  have hc₁ : c₁.Mirrors w.vol.dev w.vol.anodes.reservedBlksize := by
    obtain ⟨r, hr⟩ := @AnodeReader.steady_getChain w.vol.dev _ hw.anodes dirAnode
    cases r with
    | error e =>
        obtain ⟨c', hcon, -⟩ := hr.raise hcache
        rw [hrun] at hcon
        cases hcon
    | ok b =>
        obtain ⟨a, c', hok, -, hc'⟩ := hr.ok hcache
        rw [hrun] at hok
        cases hok
        exact hc'
  obtain ⟨hread, hentries⟩ := listBlocks_eq _ hc₁ hblocks
  rw [hw.anodesRbs] at hread hentries hc₁
  refine ⟨hentries, ?_⟩
  have hfinds := @finds_iff _ name (hw.setCache hc₁) (Checked.rounds chain) fun p hp => by
    have hmem : p.1 + p.2 ∈ AnodeReader.chainBlocks chain := by
      rw [← Checked.map_rounds]
      exact List.mem_map.mpr ⟨p, hp, rfl⟩
    exact hread _ hmem
  rw [Checked.map_rounds] at hfinds
  unfold Checked.findDirEntry
  rw [bind_of_ok hchain, hw₁]
  exact hfinds

/-- A writer that was just opened has nothing queued. -/
theorem committed_of_open {v : Volume} (hv : v.Opened) {clock : ℕ → Datestamp}
    (h : Writer.open v clock = .ok w) : w.Committed := by
  obtain ⟨⟨c, hvol, hc⟩, hsize, hcluster, hpos, -, hpending, -⟩ := Writer.openedOn_of_open hv h
  refine ⟨?_, ?_, ?_, ?_, hpos, hpending⟩
  · rw [hvol, hsize]
    exact hc
  · rw [hvol]
    exact hv.anodes
  · rw [hvol, hsize]
    exact hv.anodesRbs
  · rw [hcluster, hsize]

end Chain

/-! ## Two directories -/

/-- The writer on a hand-laid volume with these bytes in the root directory, and what it lists
and finds there: the chain, the listed entries, and the result of a search. -/
def searchRoot (entries : Bytes) (name : Name) :
    Option (Writer × List Anode × List DirEntry × Except Fault (ℕ × Bytes × ℕ)) :=
  match Writer.open (handLaidVolume rootSlots entries) fun _ => ⟨0, 0, 0⟩ with
  | .error _ => none
  | .ok w =>
      match Writer.getChain 5 w, Writer.onVol (Volume.listDirByAnode 5) w with
      | .ok chain _, .ok es _ =>
          match Checked.findDirEntry 5 name w with
          | .ok r _ => some (w, chain, es, .ok r)
          | .error f _ => some (w, chain, es, .error f)
      | _, _ => none

theorem of_searchRoot {entries : Bytes} {name : Name} {w : Writer} {chain : List Anode}
    {es : List DirEntry} {r : Except Fault (ℕ × Bytes × ℕ)}
    (h : searchRoot entries name = some (w, chain, es, r)) :
    Writer.open (handLaidVolume rootSlots entries) (fun _ => ⟨0, 0, 0⟩) = .ok w ∧
      (∃ s, Writer.getChain 5 w = .ok chain s) ∧
      (∃ s, Writer.onVol (Volume.listDirByAnode 5) w = .ok es s) ∧
      ∀ f, r = .error f → ∃ s, Checked.findDirEntry 5 name w = .error f s := by
  unfold searchRoot at h
  split at h
  · cases h
  · rename_i w' hopen
    split at h
    · rename_i chain' s es' s' hchain hlist
      split at h
      · cases h
        exact ⟨hopen, ⟨_, hchain⟩, ⟨_, hlist⟩, fun f hf => (by cases hf)⟩
      · rename_i f s hfind
        cases h
        exact ⟨hopen, ⟨_, hchain⟩, ⟨_, hlist⟩, fun f hf => (by cases hf; exact ⟨_, hfind⟩)⟩
    · cases h

/-- A file with a name of one byte. -/
def plainEntry : Bytes := [20, 253, 0, 0, 0, 6] ++ List.replicate 11 0 ++ [1, 97, 0]

/-- An entry of 255 bytes, and behind it one of 20 bytes whose name claims 255. -/
def overlongEntries : Bytes :=
  [255, 253, 0, 0, 0, 6] ++ List.replicate 11 0 ++ [1, 97] ++ List.replicate 236 0 ++
    ([20, 253, 0, 0, 0, 7] ++ List.replicate 11 0 ++ [255, 98, 99])

theorem findDirEntry_finds_plain : ∃ w chain, Writer.open (handLaidVolume rootSlots plainEntry)
      (fun _ => ⟨0, 0, 0⟩) = .ok w ∧
    Finds ['A'] ((placedInBlocks w.vol.dev w.resblocksize (AnodeReader.chainBlocks chain)).find?
      fun p => nameEqCi p.entry.name ['A']) (Checked.findDirEntry 5 ['A'] w) := by
  have hcheck : (match searchRoot plainEntry ['A'] with
      | some (w, chain, _, _) => clearBlocks w.vol.dev w.resblocksize ['A']
          (AnodeReader.chainBlocks chain)
      | none => false) = true := by decide +kernel
  split at hcheck
  · rename_i w chain es r hsearch
    obtain ⟨hopen, ⟨s, hchain⟩, ⟨s', hlist⟩, -⟩ := of_searchRoot hsearch
    have hw := committed_of_open
      (Volume.opened_of_fromDevice (fromDevice_handLaid rootSlots plainEntry)) hopen
    exact ⟨w, chain, hopen, (findDirEntry_finds_iff hw hchain hlist ['A']).2.mpr hcheck⟩
  · cases hcheck

theorem searchRoot_overlong : (match searchRoot overlongEntries ['b', 'c'] with
    | some (_, _, es, .error .panic) => decide (es.map DirEntry.name = [['a'], ['b', 'c']])
    | _ => false) = true := by decide +kernel

/-- The reader lists the second entry under the two bytes of its name that lie in it; the writer's
search for that name leaves the block. -/
theorem findDirEntry_leaves_block : ∃ w es s s',
    Volume.fromDevice (handLaid rootSlots overlongEntries) =
      .ok (handLaidVolume rootSlots overlongEntries) ∧
    Writer.open (handLaidVolume rootSlots overlongEntries) (fun _ => ⟨0, 0, 0⟩) = .ok w ∧
    Writer.onVol (Volume.listDirByAnode 5) w = .ok es s ∧
    es.map DirEntry.name = [['a'], ['b', 'c']] ∧
    Checked.findDirEntry 5 ['b', 'c'] w = .error .panic s' := by
  have hcheck := searchRoot_overlong
  split at hcheck
  · rename_i w chain es hsearch
    obtain ⟨hopen, -, ⟨s, hlist⟩, hfault⟩ := of_searchRoot hsearch
    obtain ⟨s', hfind⟩ := hfault .panic rfl
    exact ⟨w, es, s, s', fromDevice_handLaid rootSlots overlongEntries, hopen, hlist,
      of_decide_eq_true hcheck, hfind⟩
  · cases hcheck

end Pfs3
