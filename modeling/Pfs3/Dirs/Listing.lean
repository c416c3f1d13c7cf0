import Pfs3.Dirs.Resize

/-!
# A directory block as a list of entries

The entry area of a well-formed directory block is a sequence of entries with a zero byte behind
the last one.  The reader lists these entries in order, the writer's search takes the first with a
matching name, and adding and removing an entry change this one element of the list.
-/

namespace Pfs3

open ByteList Stop

/-- The bytes of one entry: their number is in the first byte, and the name lies in them. -/
structure IsEntry (raw : Bytes) : Prop where
  size : sizeAt raw 0 = raw.length
  name : 18 + nlenAt raw 0 ≤ raw.length

/-- The block holds these entries, one behind the other, and a zero byte behind the last. -/
structure HoldsEntries (data : Bytes) (raws : List Bytes) : Prop where
  id : be16 data 0 = DBLKID
  entries : ∀ raw ∈ raws, IsEntry raw
  bytes : ∃ head tail : Bytes, head.length = DIR_BLOCK_HEADER_SIZE ∧
    data = head ++ raws.flatten ++ 0 :: tail

/-- The name that an entry is looked up by. -/
def nameOf (raw : Bytes) : Name := (DirEntry.ofRaw raw).name

section Walks

variable {data raw a b : Bytes} {raws : List Bytes} {name : Name}

theorem getD_append_at (a b : Bytes) (i : ℕ) : (a ++ b).getD (a.length + i) 0 = b.getD i 0 := by
  rw [List.getD_eq_getElem?_getD, List.getD_eq_getElem?_getD,
    List.getElem?_append_right (Nat.le_add_right _ _), Nat.add_sub_cancel_left]

theorem IsEntry.le (h : IsEntry raw) : 18 ≤ raw.length := by
  have hname := h.name
  omega

theorem sizeAt_append (a b : Bytes) : sizeAt (a ++ b) a.length = sizeAt b 0 := by
  rw [sizeAt, sizeAt, ← getD_append_at a b 0, Nat.add_zero]

theorem IsEntry.sizeAt (h : IsEntry raw) (a b : Bytes) :
    Pfs3.sizeAt (a ++ (raw ++ b)) a.length = raw.length := by
  have hpos := h.le
  rw [sizeAt_append, Pfs3.sizeAt, List.getD_eq_getElem?_getD,
    List.getElem?_append_left (by omega), ← List.getD_eq_getElem?_getD]
  exact h.size

theorem IsEntry.nlenAt (h : IsEntry raw) (a b : Bytes) :
    Pfs3.nlenAt (a ++ (raw ++ b)) a.length = Pfs3.nlenAt raw 0 := by
  have hpos := h.le
  rw [Pfs3.nlenAt, getD_append_at, List.getD_eq_getElem?_getD,
    List.getElem?_append_left (by omega), ← List.getD_eq_getElem?_getD, Pfs3.nlenAt, Nat.zero_add]

theorem IsEntry.parse (h : IsEntry raw) (a b : Bytes) :
    DirEntry.parse (a ++ (raw ++ b)) a.length =
      some (DirEntry.ofRaw raw, a.length + raw.length) := by
  have hparse := @parse_of (a ++ (raw ++ b)) a.length raw.length (h.sizeAt a b)
    (by rw [List.length_append, List.length_append]; omega) h.le
  rw [List.drop_left, List.take_left] at hparse
  exact hparse

theorem IsEntry.fullName (h : IsEntry raw) (a b : Bytes) :
    Pfs3.fullName (a ++ (raw ++ b)) a.length = nameOf raw := by
  have hname := h.name
  rw [Pfs3.fullName, h.nlenAt, nameOf, DirEntry.ofRaw]
  dsimp only
  have hnlen : (raw.getD 17 0).toNat = Pfs3.nlenAt raw 0 := by rw [Pfs3.nlenAt, Nat.zero_add]
  rw [hnlen, ← List.drop_drop, List.drop_left, List.drop_append_of_le_length (by omega),
    List.take_append_of_le_length (by rw [List.length_drop]; omega)]

theorem parse_end (a tail : Bytes) : DirEntry.parse (a ++ 0 :: tail) a.length = none :=
  parse_eq_none (Or.inr (by rw [sizeAt_append]; rfl))

/-- The reader's walk over the entries. -/
theorem parseDirblockEntries_flatten (tail : Bytes) (raws : List Bytes) : ∀ (n : ℕ) (a : Bytes),
    (∀ raw ∈ raws, IsEntry raw) → raws.length ≤ n →
    parseDirblockEntries (a ++ (raws.flatten ++ 0 :: tail)) n a.length =
      raws.map DirEntry.ofRaw := by
  induction raws with
  | nil =>
      intro n a _ _
      cases n with
      | zero => rfl
      | succ n =>
          rw [parseDirblockEntries]
          split
          · rfl
          · rw [List.flatten_nil, List.nil_append, parse_end]
            rfl
  | cons raw raws ih =>
      intro n a hraws hn
      cases n with
      | zero => cases hn
      | succ n =>
          have hraw := hraws raw List.mem_cons_self
          have hlong : ¬ (a ++ ((raw :: raws).flatten ++ 0 :: tail)).length ≤ a.length := by
            simp only [List.length_append, List.length_cons]
            omega
          rw [parseDirblockEntries, if_neg hlong, List.flatten_cons, List.append_assoc,
            hraw.parse]
          dsimp only
          have hrest := ih n (a ++ raw) (fun r hr => hraws r (List.mem_cons_of_mem _ hr))
            (by simpa using hn)
          rw [List.append_assoc, List.length_append] at hrest
          rw [hrest, List.map_cons]

/-- The writer's walk to the end of the entries. -/
theorem endOfEntries_flatten (tail : Bytes) (raws : List Bytes) : ∀ (n rbs : ℕ) (a : Bytes),
    (∀ raw ∈ raws, IsEntry raw) → raws.length ≤ n →
    rbs = (a ++ (raws.flatten ++ 0 :: tail)).length →
    Writer.endOfEntries rbs (a ++ (raws.flatten ++ 0 :: tail)) n a.length =
      .ok (a.length + raws.flatten.length) := by
  induction raws with
  | nil =>
      intro n rbs a _ _ hrbs
      cases n with
      | zero => rfl
      | succ n =>
          have hlt : a.length < rbs := by
            rw [hrbs]
            simp only [List.length_append, List.length_cons]
            omega
          have hbyte : ((a ++ (([] : List Bytes).flatten ++ 0 :: tail)).getD a.length 0).toNat = 0 := by
            have hzero := sizeAt_append a (0 :: tail)
            exact hzero
          rw [Writer.endOfEntries, if_neg (by omega), readU8_ok (by omega), ok_bind, hbyte,
            if_pos rfl]
          rfl
  | cons raw raws ih =>
      intro n rbs a hraws hn hrbs
      cases n with
      | zero => cases hn
      | succ n =>
          have hraw := hraws raw List.mem_cons_self
          have hpos := hraw.le
          have hsize := hraw.sizeAt a (raws.flatten ++ 0 :: tail)
          rw [List.flatten_cons, List.append_assoc] at hrbs ⊢
          have hlt : a.length < rbs := by
            rw [hrbs]
            simp only [List.length_append, List.length_cons]
            omega
          have hbyte : ((a ++ (raw ++ (raws.flatten ++ 0 :: tail))).getD a.length 0).toNat =
              raw.length := hsize
          rw [Writer.endOfEntries, if_neg (by omega), readU8_ok (by omega), ok_bind, hbyte,
            if_neg (by omega)]
          have hrest := ih n rbs (a ++ raw) (fun r hr => hraws r (List.mem_cons_of_mem _ hr))
            (by simpa using hn) (by rw [hrbs, List.append_assoc])
          rw [List.append_assoc, List.length_append] at hrest
          rw [hrest, List.length_append, Nat.add_assoc]

/-- The writer's search: the first entry with the name, if there is one. -/
theorem findInBlock_flatten (tail : Bytes) (raws : List Bytes) : ∀ (n : ℕ) (a data : Bytes),
    (∀ raw ∈ raws, IsEntry raw) → raws.length ≤ n → data = a ++ (raws.flatten ++ 0 :: tail) →
    (Writer.findInBlock data.length data name n a.length = .ok none ∧
        ∀ raw ∈ raws, nameEqCi (nameOf raw) name = false) ∨
      ∃ before raw after, raws = before ++ raw :: after ∧
        (∀ r ∈ before, nameEqCi (nameOf r) name = false) ∧ nameEqCi (nameOf raw) name = true ∧
        Writer.findInBlock data.length data name n a.length =
          .ok (some (a.length + before.flatten.length)) := by
  induction raws with
  | nil =>
      intro n a data _ _ hdata
      refine Or.inl ⟨findInBlock_end n (Or.inr ?_), fun raw hraw => absurd hraw List.not_mem_nil⟩
      rw [hdata, List.flatten_nil, List.nil_append, sizeAt_append]
      rfl
  | cons raw raws ih =>
      intro n a data hraws hn hdata
      cases n with
      | zero => cases hn
      | succ n =>
          have hraw := hraws raw List.mem_cons_self
          have hpos := hraw.le
          rw [List.flatten_cons, List.append_assoc] at hdata
          have hlen : data.length = a.length + (raw.length + (raws.flatten.length +
              (tail.length + 1))) := by
            rw [hdata]
            simp only [List.length_append, List.length_cons]
          have hsize : Pfs3.sizeAt data a.length = raw.length := by rw [hdata, hraw.sizeAt]
          have hnlen : Pfs3.nlenAt data a.length = Pfs3.nlenAt raw 0 := by rw [hdata, hraw.nlenAt]
          have hfull : Pfs3.fullName data a.length = nameOf raw := by rw [hdata, hraw.fullName]
          have hname := hraw.name
          rw [findInBlock_succ n (by omega) (by omega), hsize, hnlen, hfull, if_neg (by omega)]
          cases hmatch : nameEqCi (nameOf raw) name with
          | true =>
              rw [if_pos rfl]
              refine Or.inr ⟨[], raw, raws, rfl, fun r hr => absurd hr List.not_mem_nil, hmatch, ?_⟩
              rfl
          | false =>
              rw [if_neg Bool.false_ne_true]
              have hrest := ih n (a ++ raw) data
                (fun r hr => hraws r (List.mem_cons_of_mem _ hr)) (by simpa using hn)
                (by rw [hdata, List.append_assoc])
              rw [List.length_append] at hrest
              rcases hrest with ⟨hnone, hall⟩ | ⟨before, r, after, rfl, hbefore, hr, hfind⟩
              · refine Or.inl ⟨hnone, fun r hr => ?_⟩
                rcases List.mem_cons.mp hr with rfl | hr
                · exact hmatch
                · exact hall r hr
              · refine Or.inr ⟨raw :: before, r, after, rfl, fun x hx => ?_, hr, ?_⟩
                · rcases List.mem_cons.mp hx with rfl | hx
                  · exact hmatch
                  · exact hbefore x hx
                · rw [hfind, List.flatten_cons, List.length_append, Nat.add_assoc]

end Walks

/-! ## One block -/

section Block

variable {data raw : Bytes} {raws : List Bytes} {name : Name}

theorem length_le_flatten (h : ∀ raw ∈ raws, IsEntry raw) : raws.length ≤ raws.flatten.length := by
  induction raws with
  | nil => exact le_rfl
  | cons raw raws ih =>
      have hrest := ih fun r hr => h r (List.mem_cons_of_mem _ hr)
      have hpos := (h raw List.mem_cons_self).le
      rw [List.flatten_cons, List.length_append, List.length_cons]
      omega

/-- What `list_entries` takes from the block. -/
theorem HoldsEntries.dirblockEntries (h : HoldsEntries data raws) :
    dirblockEntries data = raws.map DirEntry.ofRaw := by
  obtain ⟨head, tail, hhead, hdata⟩ := h.bytes
  have hcount := length_le_flatten h.entries
  have hlen : data.length = DIR_BLOCK_HEADER_SIZE + (raws.flatten.length + (tail.length + 1)) := by
    rw [hdata, ← hhead]
    simp only [List.length_append, List.length_cons]
    omega
  unfold Pfs3.dirblockEntries
  rw [if_neg (by omega), if_neg (not_not.mpr h.id), ← hhead]
  rw [List.append_assoc] at hdata
  have hwalk := parseDirblockEntries_flatten tail raws (data.length - head.length) head h.entries
    (by omega)
  rw [← hdata] at hwalk
  exact hwalk

theorem HoldsEntries.endOfEntries (h : HoldsEntries data raws) :
    Writer.endOfEntries data.length data data.length DIR_BLOCK_HEADER_SIZE =
      .ok (DIR_BLOCK_HEADER_SIZE + raws.flatten.length) := by
  obtain ⟨head, tail, hhead, hdata⟩ := h.bytes
  have hcount := length_le_flatten h.entries
  have hlen : data.length = DIR_BLOCK_HEADER_SIZE + (raws.flatten.length + (tail.length + 1)) := by
    rw [hdata, ← hhead]
    simp only [List.length_append, List.length_cons]
    omega
  rw [List.append_assoc] at hdata
  have hwalk := endOfEntries_flatten tail raws data.length data.length head h.entries (by omega)
    (by rw [hdata])
  rw [← hdata, hhead] at hwalk
  exact hwalk

theorem HoldsEntries.findInBlock (h : HoldsEntries data raws) (name : Name) :
    (Writer.findInBlock data.length data name data.length DIR_BLOCK_HEADER_SIZE = .ok none ∧
        ∀ raw ∈ raws, nameEqCi (nameOf raw) name = false) ∨
      ∃ before raw after, raws = before ++ raw :: after ∧
        (∀ r ∈ before, nameEqCi (nameOf r) name = false) ∧ nameEqCi (nameOf raw) name = true ∧
        Writer.findInBlock data.length data name data.length DIR_BLOCK_HEADER_SIZE =
          .ok (some (DIR_BLOCK_HEADER_SIZE + before.flatten.length)) := by
  obtain ⟨head, tail, hhead, hdata⟩ := h.bytes
  have hcount := length_le_flatten h.entries
  have hlen : data.length = DIR_BLOCK_HEADER_SIZE + (raws.flatten.length + (tail.length + 1)) := by
    rw [hdata, ← hhead]
    simp only [List.length_append, List.length_cons]
    omega
  rw [List.append_assoc] at hdata
  have hwalk := @findInBlock_flatten name tail raws data.length head data h.entries (by omega) hdata
  rw [hhead] at hwalk
  exact hwalk

/-- A write to the header of a block. -/
theorem splice_head {head rest src : Bytes} {off : ℕ} (h : off + src.length ≤ head.length) :
    splice (head ++ rest) off src = splice head off src ++ rest := by
  have hmid := @splice_middle [] head rest src off h
  rw [List.nil_append, List.nil_append, List.length_nil, Nat.zero_add] at hmid
  exact hmid

/-- The stamp of a block does not touch its entries. -/
theorem HoldsEntries.stamp (h : HoldsEntries data raws) (ds : ℕ) :
    HoldsEntries (splice data 4 (enc32 ds)) raws := by
  obtain ⟨head, tail, hhead, hdata⟩ := h.bytes
  have hhead' : DIR_BLOCK_HEADER_SIZE = 20 := rfl
  have hlen : 20 ≤ data.length := by
    rw [hdata]
    simp only [List.length_append, List.length_cons]
    omega
  refine ⟨?_, h.entries, splice head 4 (enc32 ds), tail, ?_, ?_⟩
  · rw [be16_splice_ne (by rw [length_enc32]; omega) (Or.inl (by omega))]
    exact h.id
  · rw [length_splice (by rw [length_enc32]; omega), hhead]
  · rw [hdata, List.append_assoc, splice_head (by rw [length_enc32]; omega), List.append_assoc]

/-- A new entry behind the others, where there is room for it and the zero byte. -/
theorem HoldsEntries.add (h : HoldsEntries data raws) (hraw : IsEntry raw)
    (hroom : DIR_BLOCK_HEADER_SIZE + raws.flatten.length + raw.length < data.length) :
    HoldsEntries (splice (splice data (DIR_BLOCK_HEADER_SIZE + raws.flatten.length) raw)
      (DIR_BLOCK_HEADER_SIZE + raws.flatten.length + raw.length) [0]) (raws ++ [raw]) := by
  obtain ⟨head, tail, hhead, hdata⟩ := h.bytes
  have hhead' : DIR_BLOCK_HEADER_SIZE = 20 := rfl
  have hlen₁ : (splice data (DIR_BLOCK_HEADER_SIZE + raws.flatten.length) raw).length =
      data.length := length_splice (by omega)
  have hfirst : (head ++ raws.flatten).length = DIR_BLOCK_HEADER_SIZE + raws.flatten.length := by
    rw [List.length_append, hhead]
  have htake : data.take (DIR_BLOCK_HEADER_SIZE + raws.flatten.length) = head ++ raws.flatten := by
    rw [hdata, ← hfirst, List.take_left]
  refine ⟨?_, fun r hr => ?_, head, data.drop (DIR_BLOCK_HEADER_SIZE + raws.flatten.length +
    raw.length + 1), hhead, ?_⟩
  · have h₂ : (1 : ℕ) = [(0 : UInt8)].length := rfl
    rw [be16_splice_ne (by rw [hlen₁, ← h₂]; omega) (Or.inl (by omega)),
      be16_splice_ne (by omega) (Or.inl (by omega))]
    exact h.id
  · rcases List.mem_append.mp hr with hr | hr
    · exact h.entries r hr
    · rw [List.mem_singleton.mp hr]
      exact hraw
  · have hlast := @splice_splice data raw [0] (DIR_BLOCK_HEADER_SIZE + raws.flatten.length)
      (by rw [List.length_singleton]; omega)
    rw [hlast, splice, htake, List.length_append, List.length_singleton, List.flatten_append,
      List.flatten_singleton, ← Nat.add_assoc]
    simp only [List.append_assoc, List.singleton_append]

/-- The bytes behind an entry moved over it, and zeros behind them. -/
theorem HoldsEntries.remove {before after : List Bytes}
    (h : HoldsEntries data (before ++ raw :: after)) :
    HoldsEntries (data.take (DIR_BLOCK_HEADER_SIZE + before.flatten.length) ++
      data.drop (DIR_BLOCK_HEADER_SIZE + before.flatten.length + raw.length) ++
      List.replicate raw.length 0) (before ++ after) := by
  obtain ⟨head, tail, hhead, hdata⟩ := h.bytes
  have hhead' : DIR_BLOCK_HEADER_SIZE = 20 := rfl
  have hfirst : (head ++ before.flatten).length =
      DIR_BLOCK_HEADER_SIZE + before.flatten.length := by
    rw [List.length_append, hhead]
  have hsplit : data = head ++ before.flatten ++ (raw ++ (after.flatten ++ 0 :: tail)) := by
    rw [hdata, List.flatten_append, List.flatten_cons]
    simp only [List.append_assoc]
  have htake : data.take (DIR_BLOCK_HEADER_SIZE + before.flatten.length) =
      head ++ before.flatten := by
    rw [hsplit, ← hfirst, List.take_left]
  have hdrop : data.drop (DIR_BLOCK_HEADER_SIZE + before.flatten.length + raw.length) =
      after.flatten ++ 0 :: tail := by
    rw [hsplit, ← hfirst, ← List.drop_drop, List.drop_left, List.drop_left]
  have heq : data.take (DIR_BLOCK_HEADER_SIZE + before.flatten.length) ++
      data.drop (DIR_BLOCK_HEADER_SIZE + before.flatten.length + raw.length) ++
      List.replicate raw.length 0 =
      head ++ (before ++ after).flatten ++ 0 :: (tail ++ List.replicate raw.length 0) := by
    rw [htake, hdrop, List.flatten_append]
    simp only [List.append_assoc, List.cons_append]
  refine ⟨?_, fun r hr => h.entries r ?_, head, tail ++ List.replicate raw.length 0, hhead, heq⟩
  · rw [heq, ← h.id]
    refine be16_eq_of_take ?_
    have hprefix : ∀ rest : Bytes, ((head ++ rest).drop 0).take 2 = head.take 2 := fun rest => by
      rw [List.drop_zero, List.take_append_of_le_length (by omega)]
    rw [hdata, List.append_assoc, List.append_assoc, hprefix, hprefix]
  · rcases List.mem_append.mp hr with hr | hr
    · exact List.mem_append_left _ hr
    · exact List.mem_append_right _ (List.mem_cons_of_mem _ hr)

/-- A new directory block with one entry. -/
theorem holdsEntries_new {n ds nr : ℕ} (hraw : IsEntry raw)
    (hroom : DIR_BLOCK_HEADER_SIZE + raw.length < n) :
    HoldsEntries (splice (splice (splice (splice (splice (List.replicate n 0) 0 (enc16 DBLKID)) 4
      (enc32 ds)) 0x0C (enc32 nr)) 0x10 (enc32 nr)) DIR_BLOCK_HEADER_SIZE raw) [raw] := by
  have hhead' : DIR_BLOCK_HEADER_SIZE = 20 := rfl
  have hzeros : List.replicate n (0 : UInt8) =
      List.replicate 20 0 ++ List.replicate (n - 20) 0 := by
    rw [List.replicate_append_replicate]
    congr 1
    omega
  have hlen₀ : (List.replicate 20 (0 : UInt8)).length = 20 := List.length_replicate
  generalize List.replicate 20 (0 : UInt8) = head₀ at hzeros hlen₀
  have hfit₁ : 0 + (enc16 DBLKID).length ≤ head₀.length := by rw [length_enc16]; omega
  have hlen₁ := length_splice hfit₁
  have hfit₂ : 4 + (enc32 ds).length ≤ (splice head₀ 0 (enc16 DBLKID)).length := by
    rw [length_enc32]; omega
  have hlen₂ := length_splice hfit₂
  have hfit₃ : 0x0C + (enc32 nr).length ≤
      (splice (splice head₀ 0 (enc16 DBLKID)) 4 (enc32 ds)).length := by rw [length_enc32]; omega
  have hlen₃ := length_splice hfit₃
  have hfit₄ : 0x10 + (enc32 nr).length ≤ (splice (splice (splice head₀ 0 (enc16 DBLKID)) 4
      (enc32 ds)) 0x0C (enc32 nr)).length := by rw [length_enc32]; omega
  have hlen₄ := length_splice hfit₄
  have hid : be16 (splice (splice (splice (splice head₀ 0 (enc16 DBLKID)) 4 (enc32 ds)) 0x0C
      (enc32 nr)) 0x10 (enc32 nr)) 0 = DBLKID := by
    rw [be16_splice_ne hfit₄ (Or.inl (by omega)), be16_splice_ne hfit₃ (Or.inl (by omega)),
      be16_splice_ne hfit₂ (Or.inl (by omega))]
    exact be16_splice_self (by omega)
  rw [hzeros, splice_head hfit₁, splice_head hfit₂, splice_head hfit₃, splice_head hfit₄]
  generalize splice (splice (splice (splice head₀ 0 (enc16 DBLKID)) 4 (enc32 ds)) 0x0C
    (enc32 nr)) 0x10 (enc32 nr) = head at hlen₄ hid
  have hhead : head.length = 20 := by omega
  have hput : splice (head ++ List.replicate (n - 20) 0) head.length raw =
      head ++ raw ++ List.replicate (n - 20 - raw.length) 0 := by
    rw [splice, List.take_left, ← List.drop_drop, List.drop_left, List.drop_replicate]
  have hrest : List.replicate (n - 20 - raw.length) (0 : UInt8) =
      0 :: List.replicate (n - 20 - raw.length - 1) 0 := by
    rw [← List.replicate_succ]
    congr 1
    omega
  rw [hhead, hrest] at hput
  rw [hhead', hput]
  refine ⟨?_, fun r hr => ?_, head, _, hhead, by rw [List.flatten_singleton]⟩
  · rw [← hid]
    refine be16_eq_of_take ?_
    rw [List.drop_zero, List.drop_zero, List.append_assoc,
      List.take_append_of_le_length (by omega)]
  · rw [List.mem_singleton.mp hr]
    exact hraw

/-- What `build_dir_entry` makes is an entry of the block. -/
theorem isEntry_buildDirEntry (now : Datestamp) (name : Name) (entryType : ℤ)
    (anode fsize protection : ℕ) :
    IsEntry (Writer.buildDirEntry now name entryType anode fsize protection) ∧
      (Writer.buildDirEntry now name entryType anode fsize protection).length ≤ 130 := by
  rw [buildDirEntry_eq]
  generalize Entry.build now name entryType anode fsize protection = e
  have hat := entryAt_bytes e
  have hsize : sizeAt e.bytes 0 = e.size := hat.esize
  have hname : nlenAt e.bytes 0 = e.name.length := hat.nlen
  have hlt := e.name_lt_size
  have hle := e.size_le
  refine ⟨⟨by rw [hsize, Entry.length_bytes], by rw [hname, Entry.length_bytes]; omega⟩, ?_⟩
  rw [Entry.length_bytes]
  exact hle

end Block

end Pfs3
