import Pfs3.Model.Io

/-!
# Block cache for reserved blocks

A map from block numbers to block contents with a generation per entry; the entry with the
smallest generation is evicted when the cache is full.
-/

namespace Pfs3

open ByteList

def DEFAULT_CAPACITY : ℕ := 256

structure CacheEntry where
  data : Bytes
  generation : ℕ

/-- LRU block cache for reserved-area blocks. -/
structure BlockCache where
  entries : List (ℕ × CacheEntry)
  generation : ℕ
  capacity : ℕ

namespace BlockCache

def new : BlockCache := ⟨[], 0, DEFAULT_CAPACITY⟩

/-- Invalidate a cached block (after write). -/
def invalidate (c : BlockCache) (block : ℕ) : BlockCache :=
  { c with entries := c.entries.filter fun p => p.1 != block }

/-- The key of the entry read longest ago. -/
def oldest : List (ℕ × CacheEntry) → Option (ℕ × ℕ)
  | [] => none
  | (k, e) :: rest =>
      match oldest rest with
      | none => some (k, e.generation)
      | some (k', g) => if e.generation ≤ g then some (k, e.generation) else some (k', g)

/-- The cache after making room for one more entry. -/
def evict (c : BlockCache) : BlockCache :=
  if c.capacity ≤ c.entries.length then
    match oldest c.entries with
    | some (k, _) => c.invalidate k
    | none => c
  else c

/-- Read a reserved-area block, returning cached data if available. -/
def readReserved (dev : Device) (block reservedBlksize : ℕ) : EStateM Fault BlockCache Bytes :=
  fun c =>
    let g := c.generation + 1
    let c := { c with generation := g }
    match c.entries.lookup block with
    | some e =>
        .ok e.data
          { c with
            entries := c.entries.map fun p => if p.1 = block then (p.1, { p.2 with generation := g })
              else p }
    | none =>
        match dev.readBlocks block (max (reservedBlksize / SECTOR_SIZE) 1) reservedBlksize with
        | .error f => .error f c
        | .ok buf =>
            let c := c.evict
            .ok buf { c with entries := (block, ⟨buf, g⟩) :: c.entries }

end BlockCache

/-- A computation on the cache, for a fixed device. -/
abbrev CacheM := EStateM Fault BlockCache

end Pfs3
