import Pfs3.Blocks.Chains
import Pfs3.Dirs.Encode
import Pfs3.Dirs.Listing

/-!
# Directories as ordered lists of entries

A directory whose anode chain has single, distinct blocks, each of them well formed, is an ordered
list of entries.  `add_dir_entry` puts one entry into the list, `remove_dir_entry` takes the first
match out of it, and every other entry keeps its bytes and its place, in any run of such calls that
are each committed.
-/

namespace Pfs3

open ByteList BlockCache Stop

/-- The block holds these entries. -/
def InBlock (view : ℕ → Except Fault Bytes) (blk : ℕ) (raws : List Bytes) : Prop :=
  ∃ data, view blk = .ok data ∧ HoldsEntries data raws

/-! ## The blocks of a directory -/

section Blocks

variable {view view' : ℕ → Except Fault Bytes} {blks : List ℕ} {blocks : List (List Bytes)}

theorem holds_congr (h : List.Forall₂ (InBlock view) blks blocks)
    (hsame : ∀ blk ∈ blks, view' blk = view blk) : List.Forall₂ (InBlock view') blks blocks := by
  induction h with
  | nil => exact .nil
  | cons hone _ ih =>
      obtain ⟨data, hdata, hholds⟩ := hone
      refine .cons ⟨data, ?_, hholds⟩ (ih fun b hb => hsame b (List.mem_cons_of_mem _ hb))
      rw [hsame _ List.mem_cons_self, hdata]

/-- One block gets other entries. -/
theorem holds_update {blk : ℕ} {raws raws' : List Bytes} {data : Bytes} {post : List ℕ}
    {after : List (List Bytes)} (hdata : HoldsEntries data raws') :
    ∀ {pre : List ℕ} {before : List (List Bytes)}, pre.length = before.length →
      (pre ++ blk :: post).Nodup →
      List.Forall₂ (InBlock view) (pre ++ blk :: post) (before ++ raws :: after) →
      List.Forall₂ (InBlock (Function.update view blk (.ok data))) (pre ++ blk :: post)
        (before ++ raws' :: after)
  | [], [], _, hnodup, h => by
      cases h with
      | cons _ hrest =>
          have hnot := (List.nodup_cons.mp hnodup).1
          refine .cons ⟨data, Function.update_self .., hdata⟩ (holds_congr hrest fun b hb => ?_)
          refine Function.update_of_ne (fun hcon => hnot ?_) _ _
          rw [← hcon]
          exact hb
  | b :: pre, rs :: before, hlen, hnodup, h => by
      cases h with
      | cons hone hrest =>
          obtain ⟨d, hd, hholds⟩ := hone
          obtain ⟨hnot, hnodup⟩ := List.nodup_cons.mp hnodup
          have hne : b ≠ blk := by
            rintro rfl
            exact hnot (List.mem_append_right _ List.mem_cons_self)
          exact .cons ⟨d, (Function.update_of_ne hne _ _).trans hd, hholds⟩
            (holds_update hdata (Nat.succ.inj hlen) hnodup hrest)

theorem chainBlocks_single {chain : List Anode} (h : ∀ an ∈ chain, an.clustersize = 1) :
    AnodeReader.chainBlocks chain = chain.map Anode.blocknr := by
  induction chain with
  | nil => rfl
  | cons an chain ih =>
      rw [List.map_cons, ← ih fun x hx => h x (List.mem_cons_of_mem _ hx)]
      unfold AnodeReader.chainBlocks
      rw [List.flatMap_cons, h an List.mem_cons_self]
      rfl

end Blocks

/-! ## The two walks of the writer -/

theorem of_putBytes {d d' src : Bytes} {off : ℕ} (h : putBytes d off src = .ok d') :
    off + src.length ≤ d.length ∧ d' = splice d off src := by
  unfold putBytes at h
  split at h
  · exact ⟨‹_›, (Except.ok.inj h).symm⟩
  · cases h

/-- The place of a block in the directory. -/
structure BlockAt (blks : List ℕ) (blocks : List (List Bytes)) (pre post : List ℕ)
    (before after : List (List Bytes)) (blk : ℕ) (raws : List Bytes) : Prop where
  blks : blks = pre ++ blk :: post
  blocks : blocks = before ++ raws :: after
  length : pre.length = before.length

theorem BlockAt.cons {blks pre post : List ℕ} {blocks before after : List (List Bytes)} {blk : ℕ}
    {raws : List Bytes} (h : BlockAt blks blocks pre post before after blk raws) (b : ℕ)
    (rs : List Bytes) :
    BlockAt (b :: blks) (rs :: blocks) (b :: pre) post (rs :: before) after blk raws :=
  ⟨by rw [h.blks, List.cons_append], by rw [h.blocks, List.cons_append],
    congrArg Nat.succ h.length⟩

theorem BlockAt.mem {blks pre post : List ℕ} {blocks before after : List (List Bytes)} {blk : ℕ}
    {raws : List Bytes} (h : BlockAt blks blocks pre post before after blk raws) : blk ∈ blks :=
  h.blks ▸ List.mem_append_right pre List.mem_cons_self

/-- The list of entries loses one of them. -/
theorem BlockAt.dropped {blks pre post : List ℕ} {blocks before after : List (List Bytes)} {blk : ℕ}
    {inner rest : List Bytes} {raw : Bytes}
    (h : BlockAt blks blocks pre post before after blk (inner ++ raw :: rest)) :
    blocks.flatten = before.flatten ++ inner ++ raw :: (rest ++ after.flatten) ∧
      (before ++ (inner ++ rest) :: after).flatten =
        before.flatten ++ inner ++ (rest ++ after.flatten) := by
  refine ⟨?_, ?_⟩
  · rw [h.blocks, List.flatten_append, List.flatten_cons]
    simp only [List.append_assoc, List.cons_append]
  · rw [List.flatten_append, List.flatten_cons]
    simp only [List.append_assoc]

namespace Writer

section Walks

variable {w w₁ w₂ : Writer} {view : ℕ → Except Fault Bytes} {free : ℕ → Bool}
  {blks : List ℕ} {blocks : List (List Bytes)}

/-- The entry went behind those of one block, or it found no room. -/
def Added (w w₁ w₂ : Writer) (view : ℕ → Except Fault Bytes) (free : ℕ → Bool) (raw : Bytes)
    (blks : List ℕ) (blocks : List (List Bytes)) (placed : Bool) : Prop :=
  (placed = false ∧ w₂ = w₁) ∨
    placed = true ∧ ∃ pre post before after blk raws data,
      BlockAt blks blocks pre post before after blk raws ∧
      Ahead w w₂ (Function.update view blk (.ok data)) free ∧
      HoldsEntries data (raws ++ [raw])

theorem Added.cons {raw : Bytes} {placed : Bool}
    (h : Added w w₁ w₂ view free raw blks blocks placed) (b : ℕ) (raws : List Bytes) :
    Added w w₁ w₂ view free raw (b :: blks) (raws :: blocks) placed :=
  h.imp_right fun ⟨hplaced, pre, post, before, after, x, rs, d, hat, hd⟩ =>
    ⟨hplaced, b :: pre, post, raws :: before, after, x, rs, d, hat.cons b raws, hd⟩

/-- The search for a block with room. -/
theorem Ahead.addToBlocks (hw : w.Stable) (h : Ahead w w₁ view free) {raw : Bytes}
    (hraw : IsEntry raw) {placed : Bool} (hholds : List.Forall₂ (InBlock view) blks blocks) :
    (∀ blk ∈ blks, w.OnGrid blk) →
    Writer.addToBlocks raw blks w₁ = .ok placed w₂ →
    Added w w₁ w₂ view free raw blks blocks placed := by
  induction hholds with
  | nil =>
      intro _ hrun
      cases hrun
      exact Or.inl ⟨rfl, rfl⟩
  | @cons b raws blks blocks hone _ ih =>
      intro hgrid hrun
      obtain ⟨data, hdata, hholds⟩ := hone
      have hgrid₁ := fun x hx => hgrid x (List.mem_cons_of_mem _ hx)
      have hlen := h.length hdata hw.sectors.le
      rw [Writer.addToBlocks] at hrun
      obtain ⟨data', w₃, hread, hrun₁⟩ := of_bind_eq_ok hrun
      obtain ⟨hstay, hdata'⟩ := h.readReservedRaw hread
      rw [hstay] at hrun₁
      obtain rfl : data' = data := Except.ok.inj (hdata'.symm.trans hdata)
      obtain ⟨id, w₄, hid, hrun₂⟩ := of_bind_eq_ok hrun₁
      obtain ⟨hid, hstay⟩ := Format.of_lift_ok hid
      rw [hstay] at hrun₂
      split at hrun₂
      · exact (ih hgrid₁ hrun₂).cons b raws
      · rw [bind_of_ok (rfl : (get : WriterM Writer) _ = .ok _ _)] at hrun₂
        rw [h.resblocksize, ← hlen] at hrun₂
        obtain ⟨pos, w₅, hend, hrun₃⟩ := of_bind_eq_ok hrun₂
        obtain ⟨hend, hstay⟩ := Format.of_lift_ok hend
        rw [hstay] at hrun₃
        obtain rfl := Except.ok.inj (hholds.endOfEntries.symm.trans hend)
        by_cases hroom : DIR_BLOCK_HEADER_SIZE + raws.flatten.length + raw.length < data'.length
        · rw [if_pos hroom] at hrun₃
          obtain ⟨d₁, w₅, hput, hrun₃⟩ := of_bind_eq_ok hrun₃
          obtain ⟨hput₁, hstay⟩ := Format.of_lift_ok hput
          rw [hstay] at hrun₃
          obtain ⟨d₂, w₆, hput, hrun₄⟩ := of_bind_eq_ok hrun₃
          obtain ⟨hput₂, hstay⟩ := Format.of_lift_ok hput
          rw [hstay] at hrun₄
          obtain ⟨ds, w₇, hstamp, hrun₅⟩ := of_bind_eq_ok hrun₄
          have hahead := h.nextDatestamp hstamp
          obtain ⟨d₃, w₈, hput, hrun₆⟩ := of_bind_eq_ok hrun₅
          obtain ⟨hput₃, hstay⟩ := Format.of_lift_ok hput
          rw [hstay] at hrun₆
          obtain ⟨_, w₉, hwrite, hrun₇⟩ := of_bind_eq_ok hrun₆
          cases hrun₇
          obtain ⟨hfit₁, rfl⟩ := of_putBytes hput₁
          obtain ⟨hfit₂, rfl⟩ := of_putBytes hput₂
          obtain ⟨hfit₃, rfl⟩ := of_putU32 hput₃
          have hlen₁ := length_splice hfit₁
          have hlen₂ := length_splice hfit₂
          have hlen₃ := length_splice (show 4 + (enc32 ds).length ≤ _ from hfit₃)
          have hahead := hahead.writeReserved (hgrid b List.mem_cons_self) (by omega) hwrite
          exact Or.inr ⟨rfl, [], blks, [], blocks, b, raws, _, ⟨rfl, rfl, rfl⟩, hahead,
            (hholds.add hraw hroom).stamp ds⟩
        · rw [if_neg hroom] at hrun₃
          exact (ih hgrid₁ hrun₃).cons b raws

/-- The first entry with a matching name. -/
structure Found (view : ℕ → Except Fault Bytes) (name : Name) (blks : List ℕ)
    (blocks : List (List Bytes)) (blk : ℕ) (data : Bytes) (pos : ℕ) (pre post : List ℕ)
    (before after : List (List Bytes)) (inner rest : List Bytes) (raw : Bytes) : Prop where
  place : BlockAt blks blocks pre post before after blk (inner ++ raw :: rest)
  content : view blk = .ok data
  holds : HoldsEntries data (inner ++ raw :: rest)
  earlier : ∀ r ∈ before.flatten ++ inner, nameEqCi (nameOf r) name = false
  here : nameEqCi (nameOf raw) name = true
  pos : pos = DIR_BLOCK_HEADER_SIZE + inner.flatten.length

theorem Ahead.findDirEntryLoop (hw : w.Stable) (h : Ahead w w₁ view free) {name : Name} {blk pos : ℕ}
    {data : Bytes} (hholds : List.Forall₂ (InBlock view) blks blocks) :
    Writer.findDirEntryLoop name blks w₁ = .ok (blk, data, pos) w₂ →
    w₂ = w₁ ∧ ∃ pre post before after inner rest raw,
      Found view name blks blocks blk data pos pre post before after inner rest raw := by
  induction hholds with
  | nil =>
      intro hrun
      cases hrun
  | @cons b raws blks blocks hone _ ih =>
      intro hrun
      obtain ⟨d, hdata, hholds⟩ := hone
      have hlen := h.length hdata hw.sectors.le
      rw [Writer.findDirEntryLoop] at hrun
      obtain ⟨d', w₃, hread, hrun₁⟩ := of_bind_eq_ok hrun
      obtain ⟨hstay, hdata'⟩ := h.readReservedRaw hread
      rw [hstay] at hrun₁
      obtain rfl : d' = d := Except.ok.inj (hdata'.symm.trans hdata)
      obtain ⟨id, w₄, hid, hrun₂⟩ := of_bind_eq_ok hrun₁
      obtain ⟨hid, hstay⟩ := Format.of_lift_ok hid
      rw [hstay] at hrun₂
      have hid' : id = DBLKID := by
        unfold readU16 at hid
        split at hid
        · rw [← Except.ok.inj hid]
          exact hholds.id
        · cases hid
      rw [if_neg (not_not.mpr hid'), bind_of_ok (rfl : (get : WriterM Writer) _ = .ok _ _),
        h.resblocksize, ← hlen] at hrun₂
      obtain ⟨found, w₅, hfind, hrun₃⟩ := of_bind_eq_ok hrun₂
      obtain ⟨hfind, hstay⟩ := Format.of_lift_ok hfind
      rw [hstay] at hrun₃
      rcases hholds.findInBlock name with ⟨hnone, hno⟩ | ⟨inner, raw, rest, rfl, hno, hyes, hsome⟩
      · obtain rfl := Except.ok.inj (hnone.symm.trans hfind)
        obtain ⟨hstay, pre, post, before, after, inner, rest, raw, hfound⟩ := ih hrun₃
        refine ⟨hstay, b :: pre, post, raws :: before, after, inner, rest, raw,
          { hfound with
            place := hfound.place.cons b raws
            earlier := fun r hr => ?_ }⟩
        rw [List.flatten_cons, List.append_assoc] at hr
        rcases List.mem_append.mp hr with hr | hr
        · exact hno r hr
        · exact hfound.earlier r hr
      · obtain rfl := Except.ok.inj (hsome.symm.trans hfind)
        cases hrun₃
        exact ⟨rfl, [], blks, [], blocks, inner, rest, raw,
          ⟨⟨rfl, rfl, rfl⟩, hdata, hholds, hno, hyes, rfl⟩⟩

end Walks

/-! ## A directory in the middle of a call -/

/-- The directory of an anode: its blocks are distinct reserved blocks, neither free nor part of the
index, and they hold these entries. -/
structure Directory (w : Writer) (view : ℕ → Except Fault Bytes) (free : ℕ → Bool) (dirAnode : ℕ)
    (blks : List ℕ) (blocks : List (List Bytes)) : Prop where
  chain : ∃ chain, w.vol.anodes.IsChain view chain dirAnode ∧
    (∀ an ∈ chain, an.clustersize = 1) ∧ chain.map Anode.blocknr = blks
  nodup : blks.Nodup
  reserved : ∀ blk ∈ blks, w.Reserved blk
  outside : ∀ blk ∈ blks, w.Outside view free blk
  holds : List.Forall₂ (InBlock view) blks blocks

section Directory

variable {w w₁ w₂ : Writer} {view view' : ℕ → Except Fault Bytes} {free free' : ℕ → Bool}
  {dirAnode : ℕ} {blks : List ℕ} {blocks : List (List Bytes)}

/-- A block that is not in the index can change. -/
theorem Outside.same {b : ℕ} (hb : w.Outside view free b) (d : Except Fault Bytes) :
    ∀ p x, x ≠ 0 → w.vol.anodes.placeIn view p = .ok x →
      Function.update view b d x = view x := by
  intro p x _ hp
  refine Function.update_of_ne ?_ _ _
  rintro rfl
  exact hb.place p hp

/-- A block stays outside the index if the index stays. -/
theorem Outside.update {b : ℕ} (hb : w.Outside view free b)
    (hsame : ∀ p x, x ≠ 0 → w.vol.anodes.placeIn view p = .ok x → view' x = view x) :
    w.Outside view' free b := by
  have hplace := AnodeReader.placeIn_congr fun p x hx _ => hsame p x hx
  exact ⟨hb.ne_zero, fun p => by rw [hplace]; exact hb.place p, hb.used⟩

/-- A block that is not in the index changes, and with it what the directory holds. -/
theorem Directory.revise (hd : w.Directory view free dirAnode blks blocks) (ht : w.Table view free)
    {blk : ℕ} {d : Except Fault Bytes} {blocks' : List (List Bytes)}
    (hblk : w.Outside view free blk)
    (hholds : List.Forall₂ (InBlock (Function.update view blk d)) blks blocks') :
    w.Directory (Function.update view blk d) free dirAnode blks blocks' ∧
      w.Table (Function.update view blk d) free := by
  have hsame := hblk.same d
  obtain ⟨chain, hchain, hsingle, hmap⟩ := hd.chain
  exact ⟨⟨⟨chain, hchain.congr fun an han => AnodeReader.anodeIn_of_same hsame
      (hchain.anodeIn an han), hsingle, hmap⟩, hd.nodup, hd.reserved,
    fun b hb => (hd.outside b hb).update hsame, hholds⟩,
    ht.congr (fun p x hx _ => hsame p x hx) ht.rootblock fun _ hk => hk⟩

/-- One block of the directory gets other entries. -/
theorem Directory.update (hd : w.Directory view free dirAnode blks blocks) (ht : w.Table view free)
    {pre post : List ℕ} {before after : List (List Bytes)} {blk : ℕ} {raws raws' : List Bytes}
    {data : Bytes} (hat : BlockAt blks blocks pre post before after blk raws)
    (hdata : HoldsEntries data raws') :
    w.Directory (Function.update view blk (.ok data)) free dirAnode blks (before ++ raws' :: after) ∧
      w.Table (Function.update view blk (.ok data)) free := by
  refine hd.revise ht (hd.outside blk hat.mem) ?_
  have hnodup := hd.nodup
  have hholds := hd.holds
  rw [hat.blks] at hnodup hholds ⊢
  rw [hat.blocks] at hholds
  exact holds_update hdata hat.length hnodup hholds

/-- The bytes that `build_dir_entry` makes of the arguments, at some time. -/
def Encodes (raw : Bytes) (name : Name) (entryType : ℤ) (anode fsize protection : ℕ) : Prop :=
  ∃ now, raw = buildDirEntry now name entryType anode fsize protection

/-- A new block with one entry at the end of the directory. -/
theorem Ahead.newDirBlock (hw : w.Stable) (hx : w.Indexed) (hn : w.Numbered)
    (hcluster : 0 < w.vol.rootblock.rblkcluster) (hsize : 150 < w.resblocksize)
    (hd : w.Directory w.blockOf w.isFree dirAnode blks blocks) {raw : Bytes} (hraw : IsEntry raw)
    (hlen : raw.length ≤ 130) (h : Ahead w w₁ w.blockOf w.isFree) (hrun : (do
      let newBlk ← Writer.allocReservedBlock
      let w ← get
      let newData ← putU16 (List.replicate w.resblocksize 0) 0 DBLKID
      let ds ← Writer.nextDatestamp
      let newData ← putU32 newData 4 ds
      let newData ← putU32 newData 0x0C dirAnode
      let newData ← putU32 newData 0x10 dirAnode
      let newData ← putBytes newData DIR_BLOCK_HEADER_SIZE raw
      Writer.writeReserved newBlk newData
      Writer.extendAnodeChain dirAnode newBlk : WriterM Unit) w₁ = .ok () w₂) :
    ∃ view' free' blk, Ahead w w₂ view' free' ∧ w.Table view' free' ∧
      w.Directory view' free' dirAnode (blks ++ [blk]) (blocks ++ [[raw]]) ∧
      ∀ b, w.Outside w.blockOf w.isFree b →
        b ≠ blk ∧ w.Outside view' free' b ∧ view' b = w.blockOf b := by
  have hpos := hw.sectors.pos
  have hhead : DIR_BLOCK_HEADER_SIZE = 20 := rfl
  obtain ⟨blk, w₃, halloc, hrun₁⟩ := of_bind_eq_ok hrun
  obtain ⟨hblk, k, hk, hfree, hahead⟩ := h.allocReservedBlock halloc
  rw [bind_of_ok (rfl : (get : WriterM Writer) _ = .ok _ _), hahead.resblocksize] at hrun₁
  obtain ⟨d₁, w₄, hput, hrun₂⟩ := of_bind_eq_ok hrun₁
  obtain ⟨hput₁, hstay⟩ := Format.of_lift_ok hput
  rw [hstay] at hrun₂
  obtain ⟨ds, w₅, hstamp, hrun₃⟩ := of_bind_eq_ok hrun₂
  have hahead := hahead.nextDatestamp hstamp
  obtain ⟨d₂, w₆, hput, hrun₄⟩ := of_bind_eq_ok hrun₃
  obtain ⟨hput₂, hstay⟩ := Format.of_lift_ok hput
  rw [hstay] at hrun₄
  obtain ⟨d₃, w₆, hput, hrun₅⟩ := of_bind_eq_ok hrun₄
  obtain ⟨hput₃, hstay⟩ := Format.of_lift_ok hput
  rw [hstay] at hrun₅
  obtain ⟨d₄, w₆, hput, hrun₆⟩ := of_bind_eq_ok hrun₅
  obtain ⟨hput₄, hstay⟩ := Format.of_lift_ok hput
  rw [hstay] at hrun₆
  obtain ⟨d₅, w₆, hput, hrun₇⟩ := of_bind_eq_ok hrun₆
  obtain ⟨hput₅, hstay⟩ := Format.of_lift_ok hput
  rw [hstay] at hrun₇
  obtain ⟨_, w₇, hwrite, hrun₈⟩ := of_bind_eq_ok hrun₇
  obtain ⟨hfit₁, rfl⟩ := of_putU16 hput₁
  obtain ⟨hfit₂, rfl⟩ := of_putU32 hput₂
  obtain ⟨hfit₃, rfl⟩ := of_putU32 hput₃
  obtain ⟨hfit₄, rfl⟩ := of_putU32 hput₄
  obtain ⟨hfit₅, rfl⟩ := of_putBytes hput₅
  have hlen₁ := length_splice (show 0 + (enc16 DBLKID).length ≤ _ from hfit₁)
  have hlen₂ := length_splice (show 4 + (enc32 ds).length ≤ _ from hfit₂)
  have hlen₃ := length_splice (show 0x0C + (enc32 dirAnode).length ≤ _ from hfit₃)
  have hlen₄ := length_splice (show 0x10 + (enc32 dirAnode).length ≤ _ from hfit₄)
  have hlen₅ := length_splice hfit₅
  have hnew := @holdsEntries_new raw w.resblocksize ds dirAnode hraw (by omega)
  have hahead := hahead.writeReserved ⟨k, hk⟩
    (by rw [hlen₅, hlen₄, hlen₃, hlen₂, hlen₁, List.length_replicate]) hwrite
  generalize splice (splice (splice (splice (splice (List.replicate w.resblocksize 0) 0
    (enc16 DBLKID)) 4 (enc32 ds)) 0x0C (enc32 dirAnode)) 0x10 (enc32 dirAnode))
    DIR_BLOCK_HEADER_SIZE raw = data at hnew hahead
  have hsame : ∀ p b, b ≠ 0 → w.vol.anodes.placeIn w.blockOf p = .ok b →
      Function.update w.blockOf blk (.ok data) b = w.blockOf b := fun p b hb hp =>
    Function.update_of_ne (hk ▸ (hx.inUse p b hb hp).ne hpos hfree) _ _
  have hplace := AnodeReader.placeIn_congr fun p b hb _ => hsame p b hb
  have hless : ∀ j, Function.update w.isFree k false j = true → w.isFree j = true := fun j hj => by
    by_cases hjk : j = k
    · rw [hjk]
      exact hfree
    · rw [Function.update_of_ne hjk] at hj
      exact hj
  have hbehind : w.firstreserved + w.vol.rootblock.rblkcluster ≤ blk :=
    hk ▸ Nat.add_le_add_left (hx.rootblock k hfree) _
  have hout : ∀ b, w.Outside w.blockOf w.isFree b → b ≠ blk ∧
      w.Outside (Function.update w.blockOf blk (.ok data)) (Function.update w.isFree k false) b :=
    fun b hb => ⟨hk ▸ hb.ne hfree, hb.ne_zero, fun p => by rw [hplace]; exact hb.place p,
      fun j hj => by
        by_contra hcon
        have hused := hb.used j hj
        rw [hless j (by simpa using hcon)] at hused
        cases hused⟩
  have houtBlk : w.Outside (Function.update w.blockOf blk (.ok data))
      (Function.update w.isFree k false) blk := by
    refine ⟨by omega, fun p hp => ?_, fun j hj => ?_⟩
    · rw [hplace] at hp
      exact (hx.inUse p blk (by omega) hp).ne hpos hfree hk
    · have heq := Nat.eq_of_mul_eq_mul_right hpos (Nat.add_left_cancel (hk.symm.trans hj))
      rw [← heq, Function.update_self]
  obtain ⟨chain, hchain, hsingle, hmap⟩ := hd.chain
  obtain ⟨view', free', hahead, hext⟩ := hahead.extendAnodeChain hw hx hn hcluster hsame hless hchain
    (fun an han hcon => by rw [hsingle an han] at hcon; cases hcon) hblk hrun₈
  obtain ⟨init, tail, nr, hinit, hchain'⟩ := hext.chain
  have htail : tail ∈ chain := hinit ▸ List.mem_append_right init List.mem_cons_self
  have hkept : ∀ b, w.Outside w.blockOf w.isFree b →
      b ≠ blk ∧ w.Outside view' free' b ∧ view' b = w.blockOf b := fun b hb => by
    obtain ⟨hne, hb'⟩ := hout b hb
    obtain ⟨hb'', hview⟩ := hext.outside b hb'
    exact ⟨hne, hb'', hview.trans (Function.update_of_ne hne _ _)⟩
  obtain ⟨houtBlk', hview⟩ := hext.outside blk houtBlk
  rw [Function.update_self] at hview
  refine ⟨view', free', blk, hahead, hext.table, ⟨⟨_, hchain', fun an han => ?_, ?_⟩, ?_,
    fun b hb => ?_, fun b hb => ?_, ?_⟩, hkept⟩
  · rcases List.mem_append.mp han with han | han
    · exact hsingle an (hinit ▸ List.mem_append_left _ han)
    · rcases List.mem_cons.mp han with rfl | han
      · exact hsingle tail htail
      · rw [List.mem_singleton.mp han]
  · rw [← hmap, hinit, List.map_append, List.map_append, List.append_assoc]
    rfl
  · refine List.nodup_append.mpr ⟨hd.nodup, List.nodup_singleton _, fun b hb x hx => ?_⟩
    rw [List.mem_singleton.mp hx]
    exact (hout b (hd.outside b hb)).1
  · rcases List.mem_append.mp hb with hb | hb
    · exact hd.reserved b hb
    · rw [List.mem_singleton.mp hb]
      exact ⟨⟨k, hk⟩, hbehind⟩
  · rcases List.mem_append.mp hb with hb | hb
    · exact (hkept b (hd.outside b hb)).2.1
    · rw [List.mem_singleton.mp hb]
      exact houtBlk'
  · exact List.rel_append (holds_congr hd.holds fun b hb => (hkept b (hd.outside b hb)).2.2)
      (.cons ⟨data, hview, hnew⟩ .nil)

/-- `raws'` has one entry more. -/
def Inserted (raw : Bytes) (raws raws' : List Bytes) : Prop :=
  ∃ before after, raws = before ++ after ∧ raws' = before ++ raw :: after

/-- `raws'` lacks the first entry of `raws` with this name. -/
def Dropped (name : Name) (raws raws' : List Bytes) : Prop :=
  ∃ before raw after, raws = before ++ raw :: after ∧ raws' = before ++ after ∧
    (∀ r ∈ before, nameEqCi (nameOf r) name = false) ∧ nameEqCi (nameOf raw) name = true

theorem Ahead.addDirEntry (hw : w.Stable) (hx : w.Indexed) (hn : w.Numbered)
    (hcluster : 0 < w.vol.rootblock.rblkcluster) (hsize : 150 < w.resblocksize)
    (hd : w.Directory w.blockOf w.isFree dirAnode blks blocks)
    (h : Ahead w w₁ w.blockOf w.isFree) {name : Name} {entryType : ℤ}
    {anode fsize protection : ℕ} (hrun : Writer.addDirEntry dirAnode name entryType anode fsize
      protection w₁ = .ok () w₂) :
    blks.length ≤ MAX_CHAIN_LEN ∧ ∃ view' free' extra blocks', Ahead w w₂ view' free' ∧
      w.Table view' free' ∧ w.Directory view' free' dirAnode (blks ++ extra) blocks' ∧
      Inserted (buildDirEntry (w₁.clock w₁.asked) name entryType anode fsize protection)
        blocks.flatten blocks'.flatten ∧
      ∀ b, w.Outside w.blockOf w.isFree b → b ∉ blks →
        b ∉ extra ∧ w.Outside view' free' b ∧ view' b = w.blockOf b := by
  unfold Writer.addDirEntry at hrun
  obtain ⟨now, w₃, hnow, hrun₁⟩ := of_bind_eq_ok hrun
  obtain ⟨rfl, hahead⟩ : w₁.clock w₁.asked = now ∧ Ahead w w₃ w.blockOf w.isFree := by
    cases hnow
    exact ⟨rfl, { h with queued := ⟨h.queued.grid, h.queued.nodup, h.queued.length⟩ }⟩
  obtain ⟨hraw, hlen⟩ := isEntry_buildDirEntry (w₁.clock w₁.asked) name entryType anode fsize
    protection
  generalize buildDirEntry (w₁.clock w₁.asked) name entryType anode fsize protection = raw
    at hrun₁ hraw hlen
  dsimp only at hrun₁
  obtain ⟨chain', w₄, hget, hrun₂⟩ := of_bind_eq_ok hrun₁
  obtain ⟨hchain', hshort, hahead⟩ := hahead.getChain hw hx hget
  obtain ⟨chain, hchain, hsingle, hmap⟩ := hd.chain
  obtain rfl := hchain.unique hchain'
  rw [chainBlocks_single hsingle, hmap] at hrun₂
  refine ⟨by rw [← hmap, List.length_map]; exact hshort, ?_⟩
  obtain ⟨placed, w₅, hplaced, hrun₃⟩ := of_bind_eq_ok hrun₂
  rcases hahead.addToBlocks hw hraw hd.holds (fun b hb => (hd.reserved b hb).1) hplaced with
    ⟨rfl, hstay⟩ | ⟨rfl, pre, post, before, after, blk, raws, data, hat, hahead', hdata⟩
  · rw [if_neg Bool.false_ne_true, hstay] at hrun₃
    obtain ⟨view', free', blk, hahead, htable, hdir, hkept⟩ :=
      hahead.newDirBlock hw hx hn hcluster hsize hd hraw hlen hrun₃
    refine ⟨view', free', _, _, hahead, htable, hdir, ⟨blocks.flatten, [], ?_, ?_⟩,
      fun b hb _ => (hkept b hb).imp_left fun hne hmem => hne (List.mem_singleton.mp hmem)⟩
    · rw [List.append_nil]
    · rw [List.flatten_append, List.flatten_singleton]
  · rw [if_pos rfl] at hrun₃
    cases hrun₃
    obtain ⟨hdir, htable⟩ := hd.update hx.table hat hdata
    refine ⟨_, _, [], _, hahead', htable, by rw [List.append_nil]; exact hdir,
      ⟨before.flatten ++ raws, after.flatten, ?_, ?_⟩, fun b hb hnot => ?_⟩
    · rw [hat.blocks, List.flatten_append, List.flatten_cons, List.append_assoc]
    · rw [List.flatten_append, List.flatten_cons]
      simp only [List.append_assoc, List.singleton_append]
    · have hne : b ≠ blk := by
        rintro rfl
        exact hnot hat.mem
      exact ⟨List.not_mem_nil, hb.update ((hd.outside blk hat.mem).same (.ok data)),
        Function.update_of_ne hne _ _⟩

/-- The size of an entry in its block. -/
theorem sizeAt_entry {data raw : Bytes} {inner rest : List Bytes}
    (h : HoldsEntries data (inner ++ raw :: rest)) :
    sizeAt data (DIR_BLOCK_HEADER_SIZE + inner.flatten.length) = raw.length ∧
      DIR_BLOCK_HEADER_SIZE + inner.flatten.length + raw.length < data.length := by
  obtain ⟨head, tail, hhead, hdata⟩ := h.bytes
  have hsplit : data = head ++ inner.flatten ++ (raw ++ (rest.flatten ++ 0 :: tail)) := by
    rw [hdata, List.flatten_append, List.flatten_cons]
    simp only [List.append_assoc]
  have hraw := h.entries raw (List.mem_append_right _ List.mem_cons_self)
  have hat := hraw.sizeAt (head ++ inner.flatten) (rest.flatten ++ 0 :: tail)
  rw [← hsplit, List.length_append, hhead] at hat
  refine ⟨hat, ?_⟩
  rw [hsplit, ← hhead]
  simp only [List.length_append, List.length_cons]
  omega

/-- An entry is taken out of one block; the chain is that of the committed volume. -/
theorem Ahead.removeDirEntry (hw : w.Stable) (hx : w.Indexed) (h : Ahead w w₁ view free)
    {chain : List Anode} (hchain : w.vol.anodes.IsChain w.blockOf chain dirAnode)
    (hsingle : ∀ an ∈ chain, an.clustersize = 1) (hmap : chain.map Anode.blocknr = blks)
    (hgrid : ∀ b ∈ blks, w.OnGrid b) (hholds : List.Forall₂ (InBlock view) blks blocks)
    {name : Name} (hrun : Writer.removeDirEntry dirAnode name w₁ = .ok () w₂) :
    blks.length ≤ MAX_CHAIN_LEN ∧ ∃ pre post before after blk inner rest raw data,
      BlockAt blks blocks pre post before after blk (inner ++ raw :: rest) ∧
      Ahead w w₂ (Function.update view blk (.ok data)) free ∧ HoldsEntries data (inner ++ rest) ∧
      (∀ r ∈ before.flatten ++ inner, nameEqCi (nameOf r) name = false) ∧
      nameEqCi (nameOf raw) name = true := by
  unfold Writer.removeDirEntry Writer.findDirEntry at hrun
  obtain ⟨⟨blk, data, pos⟩, w₂, hfind, hrun₁⟩ := of_bind_eq_ok hrun
  obtain ⟨chain', w₃, hget, hloop⟩ := of_bind_eq_ok hfind
  obtain ⟨hchain', hshort, hahead⟩ := h.getChain hw hx hget
  obtain rfl := hchain.unique hchain'
  rw [chainBlocks_single hsingle, hmap] at hloop
  refine ⟨by rw [← hmap, List.length_map]; exact hshort, ?_⟩
  obtain ⟨hstay, pre, post, before, after, inner, rest, raw, hfound⟩ :=
    hahead.findDirEntryLoop hw hholds hloop
  dsimp only at hrun₁
  rw [hstay, bind_of_ok (rfl : (get : WriterM Writer) _ = .ok _ _), hahead.resblocksize] at hrun₁
  have hlen := hahead.length hfound.content hw.sectors.le
  obtain ⟨hentry, hin⟩ := sizeAt_entry hfound.holds
  rw [← hfound.pos] at hentry hin
  obtain ⟨esize, w₄, hsize, hrun₂⟩ := of_bind_eq_ok hrun₁
  obtain ⟨hsize, hstay₁⟩ := Format.of_lift_ok hsize
  rw [hstay₁] at hrun₂
  have hesize : esize = raw.length := by
    rw [readU8_ok (by omega)] at hsize
    exact (Except.ok.inj hsize).symm.trans hentry
  subst hesize
  obtain ⟨remaining, w₅, hsub, hrun₃⟩ := of_bind_eq_ok hrun₂
  obtain ⟨hsub, hstay₂⟩ := Format.of_lift_ok hsub
  rw [hstay₂] at hrun₃
  have hremaining : remaining = w.resblocksize - (pos + raw.length) := by
    unfold subU32 at hsub
    split at hsub
    · cases hsub
      rfl
    · cases hsub
  rw [if_neg (by omega)] at hrun₃
  -- the tail that moves is the whole rest of the block
  have htail : (data.drop (pos + raw.length)).take remaining = data.drop (pos + raw.length) :=
    List.take_of_length_le (by rw [List.length_drop]; omega)
  have hrest : data.drop (pos + remaining + raw.length) = [] :=
    List.drop_eq_nil_of_le (by omega)
  rw [htail, hrest, List.append_nil] at hrun₃
  obtain ⟨ds, w₆, hstamp, hrun₄⟩ := of_bind_eq_ok hrun₃
  have hahead := hahead.nextDatestamp hstamp
  obtain ⟨d, w₇, hput, hrun₅⟩ := of_bind_eq_ok hrun₄
  obtain ⟨hput, hstay₃⟩ := Format.of_lift_ok hput
  rw [hstay₃] at hrun₅
  obtain ⟨hfit, rfl⟩ := of_putU32 hput
  have hremove := hfound.holds.remove
  rw [← hfound.pos] at hremove
  have hlength := length_splice (show 4 + (enc32 ds).length ≤ _ from hfit)
  have hahead := hahead.writeReserved (hgrid blk hfound.place.mem) (by
    rw [hlength]
    simp only [List.length_append, List.length_take, List.length_drop, List.length_replicate]
    omega) hrun₅
  exact ⟨pre, post, before, after, blk, inner, rest, raw, _, hfound.place, hahead,
    hremove.stamp ds, hfound.earlier, hfound.here⟩

end Directory

/-! ## A directory between two calls -/

/-- A volume between two calls: nothing is queued, the index is as laid out, and the reserved blocks
are whole sectors. -/
structure Consistent (w : Writer) : Prop where
  stable : w.Stable
  indexed : w.Indexed
  numbered : w.Numbered
  cluster : 0 < w.vol.rootblock.rblkcluster
  whole : SECTOR_SIZE ∣ w.resblocksize

/-- The directory on the volume. -/
abbrev HasDirectory (w : Writer) (dirAnode : ℕ) (blks : List ℕ) (blocks : List (List Bytes)) :
    Prop :=
  w.Directory w.blockOf w.isFree dirAnode blks blocks

/-- `list_entries`, without the state of the cache. -/
def listing (w : Writer) (dirAnode : ℕ) : Except Fault (List DirEntry) :=
  outcome (w.vol.anodes.listEntries dirAnode w.vol.dev w.vol.cache)

section Between

variable {w w₁ w₂ : Writer} {view view' : ℕ → Except Fault Bytes} {free : ℕ → Bool}
  {dirAnode : ℕ} {blks : List ℕ} {blocks : List (List Bytes)}

theorem Consistent.size (hw : w.Consistent) : w.rescluster * 512 = w.resblocksize := by
  have hs : SECTOR_SIZE = 512 := rfl
  have hwhole := hw.whole
  rw [hw.stable.sectors.rescluster]
  rw [hs] at hwhole ⊢
  exact Nat.div_mul_cancel hwhole

/-- Reserved blocks of whole sectors keep all that is written to them. -/
theorem Consistent.blockOf_commit (hw : w.Consistent) (h : Ahead w w₁ view free)
    (hc : CommittedTo w w₂ view free) {b : ℕ} (hb : w.Reserved b) : w₂.blockOf b = view b := by
  rw [hc.blocks b hb]
  cases hview : view b with
  | error f => rfl
  | ok data =>
      have hlen := h.length hview hw.stable.sectors.le
      rw [Except.map, kept, hw.size, List.take_of_length_le hlen.le, Nat.sub_self,
        List.replicate_zero, List.append_nil]

theorem Table.reserved (ht : w.Table view free) {p : Place} {b : ℕ} (hb : b ≠ 0)
    (hp : w.vol.anodes.placeIn view p = .ok b) : w.Reserved b := by
  obtain ⟨k, hk, -⟩ := ht.inUse p b hb hp
  exact ⟨⟨k, hk⟩, ht.behind p b hb hp⟩

/-- The volume after the commit is consistent again. -/
theorem Consistent.commit (hw : w.Consistent) (h : Ahead w w₁ view free) (ht : w.Table view free)
    (hcommit : updateRootblock w₁ = .ok () w₂) :
    CommittedTo w w₂ view free ∧ (∀ b, w.Reserved b → w₂.blockOf b = view b) ∧
      (∀ p, w.vol.anodes.placeIn w₂.blockOf p = w.vol.anodes.placeIn view p) ∧ w₂.Consistent := by
  have hc := h.commit hw.stable.sectors hcommit
  have hblocks : ∀ b, w.Reserved b → w₂.blockOf b = view b := fun b hb =>
    hw.blockOf_commit h hc hb
  have hplace : ∀ p, w.vol.anodes.placeIn w₂.blockOf p = w.vol.anodes.placeIn view p :=
    AnodeReader.placeIn_congr fun p b hb _ hp => hblocks b (ht.reserved hb hp)
  obtain ⟨m, hrb⟩ := hc.rootblock
  have hsplit : w₂.vol.rootblock.isSplittedAnodes = w.vol.rootblock.isSplittedAnodes := by
    rw [hrb]
    rfl
  refine ⟨hc, hblocks, hplace, hc.stable hw.stable, ?_, ?_, by rw [hrb]; exact hw.cluster,
    by rw [hc.resblocksize]; exact hw.whole⟩
  · have hx := hw.indexed
    refine ⟨?_, ?_, fun k hk => ?_, fun p q b hb hp hq => ?_, fun p b hb hp => ?_,
      fun p b hb hp => ?_⟩
    · rw [hc.anodes, hrb, hc.ext, hx.anodes]
      rfl
    · rw [hc.indexPerBlock, hrb, hx.indexPerBlock]
      rfl
    · rw [hc.free] at hk
      rw [hrb, hc.rescluster]
      exact ht.rootblock k hk
    · rw [hc.anodes, hplace] at hp hq
      exact ht.apart p q b hb hp hq
    · rw [hc.anodes, hplace] at hp
      unfold InUse
      rw [hc.firstreserved, hc.rescluster, hc.free]
      exact ht.inUse p b hb hp
    · rw [hc.anodes, hplace] at hp
      rw [hc.firstreserved, hrb]
      exact ht.behind p b hb hp
  · have hn := hw.numbered
    refine ⟨?_, ?_, ?_, ?_⟩
    · rw [hsplit, hc.anodes, hn.split]
    · rw [hc.anodesPerBlock, hc.anodes, hn.anodesPerBlock]
    · rw [hc.anodesPerBlock]
      exact hn.first
    · rw [hc.anodesPerBlock]
      exact hn.small

/-- So is the directory. -/
theorem Directory.commit (hw : w.Consistent) (h : Ahead w w₁ view free) (ht : w.Table view free)
    (hd : w.Directory view free dirAnode blks blocks) (hcommit : updateRootblock w₁ = .ok () w₂) :
    w₂.Consistent ∧ w₂.HasDirectory dirAnode blks blocks := by
  obtain ⟨hc, hblocks, hplace, hw₂⟩ := hw.commit h ht hcommit
  obtain ⟨chain, hchain, hsingle, hmap⟩ := hd.chain
  refine ⟨hw₂, ⟨chain, ?_, hsingle, hmap⟩, hd.nodup, ?_, fun b hb => ?_, ?_⟩
  · rw [hc.anodes]
    exact hchain.congr fun an han => AnodeReader.anodeIn_of_same
      (fun p b hb hp => hblocks b (ht.reserved hb hp)) (hchain.anodeIn an han)
  · rw [hc.reserved]
    exact hd.reserved
  · have hout := hd.outside b hb
    refine ⟨hout.ne_zero, fun p => ?_, fun k hk => ?_⟩
    · rw [hc.anodes, hplace]
      exact hout.place p
    · rw [hc.firstreserved, hc.rescluster] at hk
      rw [hc.free]
      exact hout.used k hk
  · exact holds_congr hd.holds fun b hb => hblocks b (hd.reserved b hb)

theorem listBlocks_reads (hw : w.Consistent) (hholds : List.Forall₂ (InBlock w.blockOf) blks blocks) :
    (∀ b ∈ blks, w.Reserved b) →
    Reads (Shows w.vol.dev w.resblocksize w.Reserved) Eq (w.vol.anodes.listBlocks w.vol.dev blks)
      (.ok (blocks.flatten.map DirEntry.ofRaw)) := by
  induction hholds with
  | nil => exact fun _ => reads_pure rfl
  | @cons b raws blks blocks hone _ ih =>
      intro hres
      obtain ⟨data, hdata, hholds⟩ := hone
      have hread := @readReserved_shows w.vol.dev w.resblocksize w.Reserved b
        (hres b List.mem_cons_self)
      rw [hw.stable.readReserved_eq, hdata] at hread
      have hrest := ih fun x hx => hres x (List.mem_cons_of_mem _ hx)
      rw [AnodeReader.listBlocks, hw.stable.anodesRbs]
      refine Reads.seq hread (hrest.seq (reads_pure ?_))
      rw [hholds.dirblockEntries, List.flatten_cons, List.map_append]

/-- What `list_entries` gives: the entries in order, unless the chain is too long. -/
def listingOf (blks : List ℕ) (blocks : List (List Bytes)) : Except Fault (List DirEntry) :=
  if blks.length ≤ MAX_CHAIN_LEN then .ok (blocks.flatten.map DirEntry.ofRaw)
  else .error (.err (.invalidPartition "anode chain too long"))

theorem HasDirectory.reads (hw : w.Consistent) (hd : w.HasDirectory dirAnode blks blocks) :
    Reads (Shows w.vol.dev w.resblocksize w.Reserved) Eq
      (w.vol.anodes.listEntries dirAnode w.vol.dev) (raised (listingOf blks blocks)) := by
  have hs := hw.stable
  have hx := hw.indexed
  obtain ⟨chain, hchain, hsingle, hmap⟩ := hd.chain
  have hreads := @AnodeReader.getChainLoop_reads w.vol.anodes w.vol.dev w.Reserved hs.anodes
    (fun n hl hne => hx.reserved hne (AnodeReader.super_place hl n))
    (by
      rw [hs.anodesRbs, hs.readReserved_eq]
      exact fun i b hb hne => @Indexed.reserved w hx (.index i) b hne hb)
    (by
      rw [hs.anodesRbs, hs.readReserved_eq]
      exact fun s b hb hne => @Indexed.reserved w hx (.anode s) b hne hb) MAX_CHAIN_LEN [] dirAnode
  rw [hs.anodesRbs, hs.readReserved_eq,
    hchain.chainIn MAX_CHAIN_LEN fun an _ => List.not_mem_nil] at hreads
  have hlen : blks.length = chain.length := by rw [← hmap, List.length_map]
  rw [listingOf, hlen]
  unfold AnodeReader.listEntries AnodeReader.getChain
  split
  · rename_i hshort
    rw [if_pos hshort] at hreads
    refine Reads.seq hreads ?_
    rw [chainBlocks_single hsingle, hmap]
    exact listBlocks_reads hw hd.holds hd.reserved
  · rename_i hlong
    rw [if_neg hlong] at hreads
    exact Reads.fails hreads

theorem HasDirectory.listing (hw : w.Consistent) (hd : w.HasDirectory dirAnode blks blocks) :
    w.listing dirAnode = listingOf blks blocks :=
  outcome_of_reads (hd.reads hw) hw.stable.cache

end Between

/-! ## Runs -/

/-- A call on a directory. -/
inductive DirCall where
  | add (name : Name) (entryType : ℤ) (anode fsize protection : ℕ)
  | remove (name : Name)

namespace DirCall

/-- The call and its commit. -/
def run (dirAnode : ℕ) : DirCall → WriterM Unit
  | .add name entryType anode fsize protection => do
      addDirEntry dirAnode name entryType anode fsize protection
      updateRootblock
  | .remove name => do
      removeDirEntry dirAnode name
      updateRootblock

/-- The arguments are in the range of their types, and a new name is ASCII and fits its field. -/
def Valid : DirCall → Prop
  | .add name entryType anode fsize protection =>
      (∀ c ∈ name, c.toNat < 128) ∧ 1 ≤ name.length ∧ name.length ≤ 107 ∧ -128 ≤ entryType ∧
        entryType < 128 ∧ anode < U32 ∧ fsize < 2 ^ 48 ∧ protection < 256
  | .remove _ => True

/-- What the call does to the entries of the directory, taken block by block. -/
def Effect : DirCall → List Bytes → List Bytes → Prop
  | .add name entryType anode fsize protection, raws, raws' => ∃ raw,
      Encodes raw name entryType anode fsize protection ∧
        (let e := DirEntry.ofRaw raw
        e.name = name ∧ e.entryType = entryType ∧ e.anode = anode ∧ e.fileSize = fsize ∧
          e.protection = protection) ∧ Inserted raw raws raws'
  | .remove name, raws, raws' => Dropped name raws raws'

end DirCall

def runCalls (dirAnode : ℕ) : List DirCall → WriterM Unit
  | [] => pure ()
  | call :: rest => do
      call.run dirAnode
      runCalls dirAnode rest

/-- The effects of the calls, one after the other. -/
def Effects : List DirCall → List Bytes → List Bytes → Prop
  | [], raws, raws' => raws' = raws
  | call :: rest, raws, raws' => ∃ mid, call.Effect raws mid ∧ Effects rest mid raws'

section Runs

variable {w w₁ w₂ : Writer} {dirAnode : ℕ} {blks : List ℕ} {blocks : List (List Bytes)}

/-- The new entry as it is listed. -/
theorem Encodes.listed {raw : Bytes} {name : Name} {entryType : ℤ} {anode fsize protection : ℕ}
    (h : Encodes raw name entryType anode fsize protection) (hascii : ∀ c ∈ name, c.toNat < 128)
    (hlen : name.length ≤ 107) (hlo : -128 ≤ entryType) (hhi : entryType < 128)
    (hanode : anode < U32) (hfsize : fsize < 2 ^ 48) (hprot : protection < 256) :
    let e := DirEntry.ofRaw raw
    e.name = name ∧ e.entryType = entryType ∧ e.anode = anode ∧ e.fileSize = fsize ∧
      e.protection = protection := by
  obtain ⟨now, rfl⟩ := h
  have htype := @Entry.entryType_build now name entryType anode fsize protection
  have hnr := @Entry.build_anode now name entryType anode fsize protection hanode
  have htext := @Entry.text_build now name entryType anode fsize protection hascii hlen
  have hsize := @Entry.fileSize_build now name entryType anode fsize protection hfsize
  have hbits := @Entry.protection_build now name entryType anode fsize protection hprot
  rw [Entry.signed_ofNat hlo hhi] at htype
  dsimp only
  rw [buildDirEntry_eq]
  generalize Entry.build now name entryType anode fsize protection = e at *
  rw [ofRaw_bytes]
  exact ⟨htext, htype, hnr, hsize, hbits⟩

/-- One call. -/
theorem of_dirCall (hw : w.Consistent) (hd : w.HasDirectory dirAnode blks blocks) {call : DirCall}
    (hvalid : call.Valid) (hrun : call.run dirAnode w = .ok () w₁) :
    blks.length ≤ MAX_CHAIN_LEN ∧ w₁.Consistent ∧ ∃ blks' blocks',
      w₁.HasDirectory dirAnode blks' blocks' ∧ call.Effect blocks.flatten blocks'.flatten := by
  have hsize : 150 < w.resblocksize := by
    have hpos := hw.stable.sectors.pos
    have heq := hw.size
    omega
  have hahead := hw.stable.ahead
  cases call with
  | add name entryType anode fsize protection =>
      obtain ⟨_, w₂, hadd, hcommit⟩ := of_bind_eq_ok hrun
      obtain ⟨hshort, view', free', extra, blocks', hahead, htable, hdir, hins, -⟩ :=
        hahead.addDirEntry hw.stable hw.indexed hw.numbered hw.cluster hsize hd hadd
      obtain ⟨hascii, -, hlen, hlo, hhi, hanode, hfsize, hprot⟩ := hvalid
      obtain ⟨hw₁, hdir⟩ := hdir.commit hw hahead htable hcommit
      have henc : Encodes _ name entryType anode fsize protection := ⟨w.clock w.asked, rfl⟩
      exact ⟨hshort, hw₁, _, blocks', hdir, _, henc,
        henc.listed hascii hlen hlo hhi hanode hfsize hprot, hins⟩
  | remove name =>
      obtain ⟨_, w₂, hremove, hcommit⟩ := of_bind_eq_ok hrun
      obtain ⟨chain, hchain, hsingle, hmap⟩ := hd.chain
      obtain ⟨hshort, pre, post, before, after, blk, inner, rest, raw, data, hat, hahead, hdata,
        hearlier, hhere⟩ := hahead.removeDirEntry hw.stable hw.indexed hchain hsingle hmap
          (fun b hb => (hd.reserved b hb).1) hd.holds hremove
      obtain ⟨hdir, htable⟩ := hd.update hw.indexed.table hat hdata
      obtain ⟨hw₁, hdir⟩ := hdir.commit hw hahead htable hcommit
      obtain ⟨hbefore, hafter⟩ := hat.dropped
      exact ⟨hshort, hw₁, blks, _, hdir, _, raw, _, hbefore, hafter, hearlier, hhere⟩

/-- A run of calls. -/
theorem of_runCalls (calls : List DirCall) : ∀ {w : Writer} {blks : List ℕ}
    {blocks : List (List Bytes)}, w.Consistent → w.HasDirectory dirAnode blks blocks →
    (∀ call ∈ calls, call.Valid) → runCalls dirAnode calls w = .ok () w₁ →
    w₁.Consistent ∧ ∃ blks' blocks', w₁.HasDirectory dirAnode blks' blocks' ∧
      Effects calls blocks.flatten blocks'.flatten := by
  induction calls with
  | nil =>
      intro w blks blocks hw hd _ hrun
      cases hrun
      exact ⟨hw, blks, blocks, hd, rfl⟩
  | cons call rest ih =>
      intro w blks blocks hw hd hvalid hrun
      obtain ⟨_, w₂, hcall, hrest⟩ := of_bind_eq_ok hrun
      obtain ⟨-, hw₂, blks₂, blocks₂, hd₂, heffect⟩ :=
        of_dirCall hw hd (hvalid call List.mem_cons_self) hcall
      obtain ⟨hw₁, blks', blocks', hd₁, heffects⟩ :=
        ih hw₂ hd₂ (fun c hc => hvalid c (List.mem_cons_of_mem _ hc)) hrest
      exact ⟨hw₁, blks', blocks', hd₁, _, heffect, heffects⟩

end Runs

end Writer

/-! ## A run on a small volume -/

/-- The opened writer is as laid out, and its root directory is one empty block. -/
def emptyRoot (w : Writer) : Bool :=
  decide (w.firstreserved = 2 ∧ w.rescluster = 1 ∧ w.resBitmap = [0x07000000#32] ∧
    0 < w.indexPerBlock ∧ w.vol.rootblock.isSplittedAnodes = w.vol.anodes.splitMode ∧
    w.anodesPerBlock = w.vol.anodes.anodesPerBlock ∧ ANODE_USERFIRST < w.anodesPerBlock ∧
    w.anodesPerBlock ≤ 5460 ∧ w.vol.rootblock.rblkcluster = 2 ∧ SECTOR_SIZE ∣ w.resblocksize) &&
  (match w.blockOf 4, w.blockOf 6 with
    | .ok data, .ok root => decide (be16 root 0 = DBLKID ∧
        (root.take 20).length = 20 ∧ root = root.take 20 ++ 0 :: root.drop 21) &&
        (List.range w.indexPerBlock).all fun o =>
          decide (indexEntry data o = if o = 0 then 5 else 0)
    | _, _ => false) &&
  match w.vol.anodes.anodeIn w.blockOf 5 with
  | .ok an => decide (an = ⟨1, 6, 0, 5⟩)
  | .error _ => false

theorem of_emptyRoot {w : Writer} {clock : ℕ → Datestamp}
    (hopen : Writer.open (oneAnodeBlockVolume 512) clock = .ok w) (hroot : emptyRoot w = true) :
    w.Consistent ∧ w.HasDirectory 5 [6] [[]] := by
  have hv := Volume.opened_of_fromDevice fromDevice_whole
  have hon := Writer.openedOn_of_open hv hopen
  unfold emptyRoot at hroot
  rw [Bool.and_eq_true, Bool.and_eq_true] at hroot
  obtain ⟨⟨hfields, hblocks⟩, hanode⟩ := hroot
  obtain ⟨hfirst, hcluster, hbitmap, hpos, hsplit, hapb, huser, hsmall, hroot, hwhole⟩ :=
    of_decide_eq_true hfields
  split at hblocks
  · rename_i data root hdata hdir
    rw [Bool.and_eq_true] at hblocks
    obtain ⟨hid, hhead, hbytes⟩ := of_decide_eq_true hblocks.1
    have hentries := fun o (ho : o < w.indexPerBlock) => of_decide_eq_true
      (List.all_eq_true.mp hblocks.2 o (List.mem_range.mpr ho))
    split at hanode
    · rename_i an han
      rw [of_decide_eq_true hanode] at han
      refine ⟨⟨(committed_of_open hv hopen).stable, Writer.indexed_oneAnodeBlock hon.vol
        hon.indexPerBlock hfirst hcluster hbitmap hdata hentries hpos,
        ⟨hsplit, hapb, huser, hsmall⟩, by omega, hwhole⟩, ⟨⟨[⟨1, 6, 0, 5⟩], ?_, ?_, rfl⟩,
        List.nodup_singleton 6, ?_, ?_, ?_⟩⟩
      · exact ⟨by decide, han, rfl⟩
      · intro an han
        rw [List.mem_singleton.mp han]
      · intro b hb
        rw [List.mem_singleton.mp hb]
        unfold Writer.Reserved Writer.OnGrid
        rw [hfirst, hcluster, hroot]
        exact ⟨⟨4, rfl⟩, by decide⟩
      · intro b hb
        rw [List.mem_singleton.mp hb]
        refine ⟨by decide, fun p hp => ?_, fun k hk => ?_⟩
        · rcases Writer.places_oneAnodeBlock hon.vol hon.indexPerBlock hdata hentries hpos
            (by decide) hp with ⟨-, hcon⟩ | ⟨-, hcon⟩
          · cases hcon
          · cases hcon
        · rw [hfirst, hcluster] at hk
          obtain rfl : k = 4 := by omega
          rw [Writer.isFree, hbitmap]
          decide
      · refine .cons ⟨root, hdir, hid, fun raw hraw => absurd hraw List.not_mem_nil,
          root.take 20, root.drop 21, hhead, ?_⟩ .nil
        rw [List.flatten_nil, List.append_nil]
        exact hbytes
    · cases hanode
  · cases hblocks

end Pfs3
