import Pfs3.Dirs.Ordered
import Pfs3.Tree.Kept

/-!
# What a rename keeps of an entry

`rename_in` builds a new entry from the type, the anode, the size and the protection of the old one.
The module says for which entries the new one has every other field as well, on directories of any
content.
-/

namespace Pfs3

open ByteList BlockCache Stop

/-! ## The new entry -/

section Entry

variable {raw : Bytes}

theorem getD_takeField_lt (flags flag pos : ℕ) :
    ((DirEntry.takeField raw flags flag 2 pos).1.getD 0) < 2 ^ 16 := by
  unfold DirEntry.takeField
  split
  · rw [Option.getD_some, if_neg (by decide)]
    exact be16_lt _ _
  · exact Nat.two_pow_pos 16

theorem fsizex_lt (raw : Bytes) (nlen : ℕ) : (DirEntry.parseExtrafields raw nlen).fsizex < 2 ^ 16 := by
  unfold DirEntry.parseExtrafields
  dsimp only
  generalize (if (18 + nlen + 1 + (raw.getD (18 + nlen) 0).toNat) % 2 ≠ 0 then
    18 + nlen + 1 + (raw.getD (18 + nlen) 0).toNat + 1
    else 18 + nlen + 1 + (raw.getD (18 + nlen) 0).toNat) = start
  split
  · exact Nat.two_pow_pos 16
  · split
    · exact Nat.two_pow_pos 16
    · exact getD_takeField_lt _ _ _

/-- The two halves of a size. -/
theorem fileSize_halves (e : DirEntry) (hlo : e.fsize < 2 ^ 32) (hhi : e.extra.fsizex < 2 ^ 16) :
    e.fileSize % 2 ^ 32 = e.fsize ∧ e.fileSize / 2 ^ 32 % 65536 = e.extra.fsizex ∧
      e.fileSize < 2 ^ 48 := by
  have hsum : e.fileSize = e.extra.fsizex * 2 ^ 32 + e.fsize := by
    rw [DirEntry.fileSize, Nat.or_comm, ← Nat.shiftLeft_add_eq_or_of_lt hlo, Nat.shiftLeft_eq]
  omega

/-- The fields that a rename passes on are in the range of their types. -/
theorem ofRaw_bounds (raw : Bytes) : -128 ≤ (DirEntry.ofRaw raw).entryType ∧
    (DirEntry.ofRaw raw).entryType < 128 ∧ (DirEntry.ofRaw raw).anode < 2 ^ 32 ∧
    (DirEntry.ofRaw raw).fsize < 2 ^ 32 ∧ (DirEntry.ofRaw raw).extra.fsizex < 2 ^ 16 ∧
    (DirEntry.ofRaw raw).protection < 256 := by
  have htype := UInt8.toNat_lt (raw.getD 1 0)
  have hprot := UInt8.toNat_lt (raw.getD 16 0)
  refine ⟨?_, ?_, be32_lt _ _, be32_lt _ _, fsizex_lt _ _, hprot⟩
  · dsimp only [DirEntry.ofRaw]
    split <;> omega
  · dsimp only [DirEntry.ofRaw]
    split <;> omega

/-- The two entries agree in every field but the name and the size of the entry. -/
def SameFields (e e' : DirEntry) : Prop := e' = { e with name := e'.name, entrySize := e'.entrySize }

/-- No comment, no extra field but the upper part of the size, and the date of the call. -/
def Plain (e : DirEntry) (now : Datestamp) : Prop :=
  e.comment = [] ∧ e.extra = { fsizex := e.extra.fsizex } ∧ e.creationDay = now.day % 65536 ∧
    e.creationMinute = now.minute % 65536 ∧ e.creationTick = now.tick % 65536

/-- The entry that `rename_in` builds from the old one. -/
def renamedEntry (now : Datestamp) (name : Name) (e : DirEntry) : Bytes :=
  Writer.buildDirEntry now name e.entryType e.anode e.fileSize e.protection

theorem sameFields_renamedEntry_iff (raw : Bytes) (now : Datestamp) (name : Name) :
    SameFields (DirEntry.ofRaw raw) (DirEntry.ofRaw (renamedEntry now name (DirEntry.ofRaw raw))) ↔
      Plain (DirEntry.ofRaw raw) now := by
  obtain ⟨hlo, hhi, hanode, hfsize, hfsizex, hprot⟩ := ofRaw_bounds raw
  generalize DirEntry.ofRaw raw = e at *
  obtain ⟨hlow, hhigh, -⟩ := fileSize_halves e hfsize hfsizex
  have htype := @Entry.entryType_build now name e.entryType e.anode e.fileSize e.protection
  have hnr := @Entry.build_anode now name e.entryType e.anode e.fileSize e.protection hanode
  have hbits := @Entry.protection_build now name e.entryType e.anode e.fileSize e.protection hprot
  have hupper := @Entry.fsizex_build now name e.entryType e.anode e.fileSize e.protection
  rw [Entry.signed_ofNat hlo hhi] at htype
  rw [hhigh] at hupper
  have hsize : (Entry.build now name e.entryType e.anode e.fileSize e.protection).fsize.toNat =
      e.fsize := by
    rw [Entry.build, UInt32.toNat_ofNat']
    exact hlow
  have hday : (Entry.build now name e.entryType e.anode e.fileSize e.protection).day.toNat =
      now.day % 65536 := by
    rw [Entry.build, UInt16.toNat_ofNat']
  have hminute : (Entry.build now name e.entryType e.anode e.fileSize e.protection).minute.toNat =
      now.minute % 65536 := by
    rw [Entry.build, UInt16.toNat_ofNat']
  have htick : (Entry.build now name e.entryType e.anode e.fileSize e.protection).tick.toNat =
      now.tick % 65536 := by
    rw [Entry.build, UInt16.toNat_ofNat']
  rw [renamedEntry, buildDirEntry_eq]
  generalize Entry.build now name e.entryType e.anode e.fileSize e.protection = b at *
  rw [ofRaw_bytes]
  unfold SameFields Plain Entry.toDirEntry
  rw [htype, hnr, hbits, hupper, hsize, hday, hminute, htick]
  obtain ⟨entrySize, entryType, anode, fsize, day, minute, tick, protection, text, comment, extra⟩ := e
  simp only [DirEntry.mk.injEq, true_and]
  constructor
  · rintro ⟨rfl, rfl, rfl, hcomment, hextra⟩
    exact ⟨hcomment.symm, hextra.symm, rfl, rfl, rfl⟩
  · rintro ⟨hcomment, hextra, rfl, rfl, rfl⟩
    exact ⟨rfl, rfl, rfl, hcomment.symm, hextra.symm⟩

end Entry

/-- The name of the new entry. -/
theorem nameOf_renamedEntry (now : Datestamp) (name : Name) (raw : Bytes) :
    nameOf (renamedEntry now name (DirEntry.ofRaw raw)) = storedName name := by
  rw [nameOf, renamedEntry, buildDirEntry_eq, ofRaw_bytes]
  exact text_build

/-- The one entry with a name is found under it. -/
theorem find_of_unique {raws : List Bytes} {raw : Bytes} {name : Name} (hmem : raw ∈ raws)
    (hyes : nameEqCi (nameOf raw) name = true)
    (hno : ∀ r ∈ raws, nameEqCi (nameOf r) name = true → r = raw) :
    (raws.map DirEntry.ofRaw).find? (fun e => nameEqCi e.name name) = some (DirEntry.ofRaw raw) := by
  cases hfind : (raws.map DirEntry.ofRaw).find? fun e => nameEqCi e.name name with
  | none =>
      have hnone := List.find?_eq_none.mp hfind _ (List.mem_map_of_mem hmem)
      exact absurd hyes hnone
  | some e =>
      obtain ⟨r, hr, rfl⟩ := List.mem_map.mp (List.mem_of_find?_eq_some hfind)
      have hmatch := List.find?_some hfind
      change nameEqCi (nameOf r) name = true at hmatch
      rw [hno r hr hmatch]

namespace Writer

/-! ## The call -/

/-- A result in this state. -/
def inState {α : Type} (w : Writer) : Except Fault α → EStateM.Result Fault Writer α
  | .ok a => .ok a w
  | .error f => .error f w

section Call

variable {w w₁ w₂ : Writer} {view : ℕ → Except Fault Bytes} {free : ℕ → Bool} {dirAnode : ℕ}
  {blks : List ℕ} {blocks : List (List Bytes)}

/-- A cached reader in the middle of a call changes the cache only. -/
theorem Ahead.onCache (h : Ahead w w₁ view free) {α : Type} {f : Device → CacheM α}
    {e : Except Fault α} (hreads : Reads (Shows w.vol.dev w.resblocksize w.Reserved) Eq
      (f w.vol.dev) (raised e)) :
    ∃ w₂, Ahead w w₂ view free ∧ w₂.clock = w₁.clock ∧ w₂.asked = w₁.asked ∧
      Writer.onVol (Volume.onCache f) w₁ = inState w₂ e := by
  have hset : ∀ c : BlockCache, c.Shows w.vol.dev w.resblocksize w.Reserved →
      Ahead w (setVol { w₁.vol with cache := c } w₁) view free := fun c hc =>
    { h with
      cache := hc
      queued := ⟨h.queued.grid, h.queued.nodup, h.queued.length⟩ }
  unfold Writer.onVol zoom Volume.onCache zoom
  rw [h.dev]
  cases e with
  | error f =>
      obtain ⟨c, hrun, hc⟩ := hreads.raise h.cache
      rw [hrun]
      exact ⟨_, hset c hc, rfl, rfl, rfl⟩
  | ok a =>
      obtain ⟨_, c, hrun, rfl, hc⟩ := hreads.ok h.cache
      rw [hrun]
      exact ⟨_, hset c hc, rfl, rfl, rfl⟩

theorem Ahead.listDirByAnode (hw : w.Consistent) (hd : w.HasDirectory dirAnode blks blocks)
    (h : Ahead w w₁ view free) :
    ∃ w₂, Ahead w w₂ view free ∧ w₂.clock = w₁.clock ∧ w₂.asked = w₁.asked ∧
      Writer.onVol (Volume.listDirByAnode dirAnode) w₁ = inState w₂ (listingOf blks blocks) := by
  unfold Volume.listDirByAnode
  rw [onVol_onCache_eq fun v => v.anodes.listEntries dirAnode, h.anodes]
  exact h.onCache (hd.reads hw)

/-- A rename onto a name that is not there: the steps that change the volume. -/
theorem of_renameIn (hw : w.Consistent) {srcParent dstParent : ℕ} {srcName dstName : Name}
    {blks' : List ℕ} {blocks' : List (List Bytes)}
    (hsrc : w.HasDirectory srcParent blks blocks) (hdst : w.HasDirectory dstParent blks' blocks')
    (hfresh : ∀ r ∈ blocks'.flatten, nameEqCi (nameOf r) dstName = false)
    (hrun : renameIn srcParent srcName dstParent dstName w = .ok () w₂) :
    ∃ e w₁ w₃ w₄, (blocks.flatten.map DirEntry.ofRaw).find? (fun e => nameEqCi e.name srcName) =
        some e ∧
      Ahead w w₁ w.blockOf w.isFree ∧ w₁.clock w₁.asked = w.clock w.asked ∧
      addDirEntry dstParent dstName e.entryType e.anode e.fileSize e.protection w₁ = .ok () w₃ ∧
      removeDirEntry srcParent srcName w₃ = .ok () w₄ ∧ updateRootblock w₄ = .ok () w₂ := by
  unfold renameIn at hrun
  obtain ⟨entries, w₁, hlist, hrun₁⟩ := of_bind_eq_ok hrun
  obtain ⟨w₃, hahead, hclock, hasked, heq⟩ := hw.stable.ahead.listDirByAnode hw hsrc
  rw [heq, listingOf] at hlist
  split at hlist
  · cases hlist
    cases hfind : (blocks.flatten.map DirEntry.ofRaw).find? fun e => nameEqCi e.name srcName with
    | none =>
        rw [hfind] at hrun₁
        cases hrun₁
    | some e =>
        rw [hfind] at hrun₁
        dsimp only at hrun₁
        obtain ⟨dst, w₅, htry, hrun₂⟩ := of_bind_eq_ok hrun₁
        obtain ⟨w₆, hahead₂, hclock₂, hasked₂, heq₂⟩ := hahead.listDirByAnode hw hdst
        have hquiet : w₅ = w₆ ∧ ((dst.getD []).any fun e => nameEqCi e.name dstName) = false := by
          unfold tryOk at htry
          rw [heq₂, listingOf] at htry
          by_cases hshort : blks'.length ≤ MAX_CHAIN_LEN
          · rw [if_pos hshort] at htry
            cases htry
            refine ⟨rfl, List.any_eq_false.mpr fun x hx => ?_⟩
            obtain ⟨r, hr, rfl⟩ := List.mem_map.mp hx
            rw [Bool.not_eq_true]
            exact hfresh r hr
          · rw [if_neg hshort] at htry
            cases htry
            exact ⟨rfl, rfl⟩
        obtain ⟨rfl, hany⟩ := hquiet
        rw [hany, if_neg Bool.false_ne_true] at hrun₂
        obtain ⟨_, w₇, hadd, hrun₃⟩ := of_bind_eq_ok hrun₂
        obtain ⟨_, w₈, hremove, hcommit⟩ := of_bind_eq_ok hrun₃
        exact ⟨e, _, w₇, w₈, rfl, hahead₂, by rw [hclock₂, hasked₂, hclock, hasked], hadd, hremove,
          hcommit⟩
  · cases hlist

/-- The removal after the addition: the new entry stays where it is listed. -/
theorem of_removeAfterAdd (hw : w.Consistent) {srcParent dstParent : ℕ} {srcName : Name}
    {blks' extra : List ℕ} {blocks' blocks₁ : List (List Bytes)} {free : ℕ → Bool}
    (hsrc : w.HasDirectory srcParent blks blocks)
    (hapart : srcParent = dstParent ∧ blks = blks' ∧ blocks = blocks' ∨ blks.Disjoint blks')
    (h : Ahead w w₁ view free) (ht : w.Table view free)
    (hd : w.Directory view free dstParent (blks' ++ extra) blocks₁)
    (hframe : ∀ b, w.Outside w.blockOf w.isFree b → b ∉ blks' →
      b ∉ extra ∧ w.Outside view free b ∧ view b = w.blockOf b)
    (hrun : removeDirEntry srcParent srcName w₁ = .ok () w₂) :
    ∃ view' blocks₂, Ahead w w₂ view' free ∧ w.Table view' free ∧
      w.Directory view' free dstParent (blks' ++ extra) blocks₂ ∧
      (∀ r ∈ blocks₂.flatten, r ∈ blocks₁.flatten) ∧
      ∀ r ∈ blocks₁.flatten, (srcParent = dstParent → nameEqCi (nameOf r) srcName = false) →
        r ∈ blocks₂.flatten := by
  obtain ⟨chain, hchain, hsingle, hmap⟩ := hsrc.chain
  have hgrid : ∀ b ∈ blks, w.OnGrid b := fun b hb => (hsrc.reserved b hb).1
  rcases hapart with ⟨rfl, rfl, rfl⟩ | hdisjoint
  · -- one directory: its old blocks hold the first part of the new list
    have hfront := List.forall₂_take blks.length hd.holds
    rw [List.take_left] at hfront
    obtain ⟨-, pre, post, before, after, blk, inner, rest, raw, data, hat, hahead, hdata, -, hhere⟩ :=
      h.removeDirEntry hw.stable hw.indexed hchain hsingle hmap hgrid hfront hrun
    have hwhole : BlockAt (blks ++ extra) blocks₁ pre (post ++ extra) before
        (after ++ blocks₁.drop blks.length) blk (inner ++ raw :: rest) := by
      refine ⟨by rw [hat.blks, List.append_assoc, List.cons_append], ?_, hat.length⟩
      have hsplit := List.take_append_drop blks.length blocks₁
      rw [hat.blocks, List.append_assoc, List.cons_append] at hsplit
      exact hsplit.symm
    obtain ⟨hdir, htable⟩ := hd.update ht hwhole hdata
    obtain ⟨hbefore, hafter⟩ := hwhole.dropped
    refine ⟨_, _, hahead, htable, hdir, fun r hr => ?_, fun r hr hno => ?_⟩
    · rw [hafter] at hr
      rw [hbefore]
      rcases List.mem_append.mp hr with hr | hr
      · exact List.mem_append_left _ hr
      · exact List.mem_append_right _ (List.mem_cons_of_mem _ hr)
    · rw [hbefore] at hr
      rw [hafter]
      rcases List.mem_append.mp hr with hr | hr
      · exact List.mem_append_left _ hr
      · rcases List.mem_cons.mp hr with rfl | hr
        · rw [hno rfl] at hhere
          cases hhere
        · exact List.mem_append_right _ hr
  · -- two directories: the block that changes is not in the other one
    have hkept := fun b hb => hframe b (hsrc.outside b hb) (hdisjoint hb)
    obtain ⟨-, pre, post, before, after, blk, inner, rest, raw, data, hat, hahead, -⟩ :=
      h.removeDirEntry hw.stable hw.indexed hchain hsingle hmap hgrid
        (holds_congr hsrc.holds fun b hb => (hkept b hb).2.2) hrun
    obtain ⟨hextra, hout, -⟩ := hkept blk hat.mem
    obtain ⟨hdir, htable⟩ := hd.revise ht (d := .ok data) hout
      (holds_congr hd.holds fun b hb => Function.update_of_ne (fun hcon => by
        rw [hcon] at hb
        rcases List.mem_append.mp hb with hb | hb
        · exact hdisjoint hat.mem hb
        · exact hextra hb) _ _)
    exact ⟨_, _, hahead, htable, hdir, fun r hr => hr, fun r hr _ => hr⟩

theorem nameEqCi_of_ne {a b c : Name} (h : nameEqCi a b = true) (hne : nameEqCi a c = false) :
    nameEqCi c b = false := by
  unfold nameEqCi at *
  rw [beq_iff_eq] at h
  rw [beq_eq_false_iff_ne] at hne ⊢
  exact fun hcon => hne (h.trans hcon.symm)

/-- One directory has its blocks from itself. -/
theorem not_mem_of_disjoint {srcParent dstParent : ℕ} {blks' : List ℕ}
    {blocks' : List (List Bytes)} (hsame : srcParent = dstParent)
    (hsrc : w.HasDirectory srcParent blks blocks) (hdst : w.HasDirectory dstParent blks' blocks')
    (hdisjoint : blks.Disjoint blks') {raw : Bytes} : raw ∉ blocks.flatten := by
  subst hsame
  obtain ⟨chain, hchain, -, hmap⟩ := hsrc.chain
  obtain ⟨chain', hchain', -, hmap'⟩ := hdst.chain
  obtain rfl := hchain.unique hchain'
  obtain rfl := hmap.symm.trans hmap'
  have hnil : blks = [] := List.eq_nil_iff_forall_not_mem.mpr fun b hb => hdisjoint hb hb
  have hholds := hsrc.holds
  rw [hnil] at hholds
  cases hholds
  exact List.not_mem_nil

/-- On directories of any content: the entry that is found under the new name has every other field
of the old one exactly if that one is plain. -/
theorem renameIn_keeps_iff (hw : w.Consistent) {srcParent dstParent : ℕ} {srcName dstName : Name}
    {blks' : List ℕ} {blocks' : List (List Bytes)}
    (hsrc : w.HasDirectory srcParent blks blocks) (hdst : w.HasDirectory dstParent blks' blocks')
    (hapart : srcParent = dstParent ∧ blks = blks' ∧ blocks = blocks' ∨ blks.Disjoint blks')
    {e : DirEntry}
    (hfind : (blocks.flatten.map DirEntry.ofRaw).find? (fun e => nameEqCi e.name srcName) = some e)
    (hfresh : ∀ r ∈ blocks'.flatten, nameEqCi (nameOf r) dstName = false)
    (hstored : ∀ r ∈ blocks'.flatten, nameEqCi (nameOf r) (storedName dstName) = false)
    (hrun : renameIn srcParent srcName dstParent dstName w = .ok () w₂) :
    ∃ blks₂ blocks₂ e', w₂.Consistent ∧ w₂.HasDirectory dstParent blks₂ blocks₂ ∧
      (blocks₂.flatten.map DirEntry.ofRaw).find? (fun e => nameEqCi e.name (storedName dstName)) =
        some e' ∧
      (SameFields e e' ↔ Plain e (w.clock w.asked)) := by
  obtain ⟨e₁, w₁, w₃, w₄, hfind₁, hahead, hclock, hadd, hremove, hcommit⟩ :=
    of_renameIn hw hsrc hdst hfresh hrun
  obtain rfl : e₁ = e := Option.some.inj (hfind₁.symm.trans hfind)
  obtain ⟨raw, hraw, rfl⟩ := List.mem_map.mp (List.mem_of_find?_eq_some hfind)
  have hmatch := List.find?_some hfind
  change nameEqCi (nameOf raw) srcName = true at hmatch
  have hsize : 150 < w.resblocksize := by
    have hpos := hw.stable.sectors.pos
    have heq := hw.size
    omega
  obtain ⟨-, view, free, extra, blocks₁, hahead, htable, hdir, ⟨before, after, hold, hnew⟩, hframe⟩ :=
    hahead.addDirEntry hw.stable hw.indexed hw.numbered hw.cluster hsize hdst hadd
  rw [hclock] at hnew
  change blocks₁.flatten = before ++ renamedEntry (w.clock w.asked) dstName (DirEntry.ofRaw raw) :: after
    at hnew
  have hname := nameOf_renamedEntry (w.clock w.asked) dstName raw
  have hiff := sameFields_renamedEntry_iff raw (w.clock w.asked) dstName
  generalize renamedEntry (w.clock w.asked) dstName (DirEntry.ofRaw raw) = new at hnew hname hiff
  have hother : srcParent = dstParent → nameEqCi (nameOf new) srcName = false := by
    intro hsame
    rw [hname]
    rcases hapart with ⟨-, -, rfl⟩ | hdisjoint
    · exact nameEqCi_of_ne hmatch (hstored raw hraw)
    · exact absurd hraw (not_mem_of_disjoint hsame hsrc hdst hdisjoint)
  obtain ⟨view', blocks₂, hahead, htable, hdir, hsub, hkeep⟩ :=
    of_removeAfterAdd hw hsrc hapart hahead htable hdir hframe hremove
  obtain ⟨hw₂, hdir⟩ := hdir.commit hw hahead htable hcommit
  have hmem : new ∈ blocks₂.flatten :=
    hkeep new (hnew ▸ List.mem_append_right _ List.mem_cons_self) hother
  refine ⟨_, blocks₂, DirEntry.ofRaw new, hw₂, hdir, find_of_unique hmem ?_ fun r hr hyes => ?_, hiff⟩
  · rw [hname]
    exact beq_self_eq_true _
  · have hr₁ := hsub r hr
    rw [hnew] at hr₁
    by_contra hne
    have hrold : r ∈ blocks'.flatten := by
      rw [hold]
      rcases List.mem_append.mp hr₁ with hr₁ | hr₁
      · exact List.mem_append_left _ hr₁
      · exact List.mem_append_right _ ((List.mem_cons.mp hr₁).resolve_left hne)
    rw [hstored r hrold] at hyes
    cases hyes

end Call

end Writer

/-! ## Two renames -/

/-- The file that was added to the empty root directory is renamed. -/
def addAndRename : Option (Writer × Writer × Writer × List DirEntry × DirEntry) :=
  match Writer.open (oneAnodeBlockVolume 512) fun _ => ⟨0, 0, 0⟩ with
  | .error _ => none
  | .ok w =>
      match Writer.runCalls 5 [.add ['a'] ST_FILE 7 0 0] w with
      | .error _ _ => none
      | .ok () w₁ =>
          match Writer.renameIn 5 ['a'] 5 ['b'] w₁, w₁.listing 5 with
          | .ok () w₂, .ok es =>
              match es.find? fun e => nameEqCi e.name ['a'] with
              | some e => some (w, w₁, w₂, es, e)
              | none => none
          | _, _ => none

theorem of_addAndRename {w w₁ w₂ : Writer} {es : List DirEntry} {e : DirEntry}
    (h : addAndRename = some (w, w₁, w₂, es, e)) (hroot : emptyRoot w = true)
    (hfresh : (es.all fun e => !nameEqCi e.name ['b']) = true) : ∃ blks blocks, w₁.Consistent ∧
      w₁.HasDirectory 5 blks blocks ∧
      (blocks.flatten.map DirEntry.ofRaw).find? (fun e => nameEqCi e.name ['a']) = some e ∧
      (∀ r ∈ blocks.flatten, nameEqCi (nameOf r) ['b'] = false) ∧
      Writer.renameIn 5 ['a'] 5 ['b'] w₁ = .ok () w₂ := by
  unfold addAndRename at h
  split at h
  · cases h
  · rename_i w' hopen
    split at h
    · cases h
    · rename_i w₁' hadd
      split at h
      · rename_i w₂' es' hrename hlist
        split at h
        · rename_i e' hfind
          cases h
          obtain ⟨hw, hd⟩ := of_emptyRoot hopen hroot
          have hvalid : ∀ c ∈ [Writer.DirCall.add ['a'] ST_FILE 7 0 0], c.Valid := by
            intro c hc
            rw [List.mem_singleton.mp hc]
            exact ⟨by simp, by decide, by decide, by decide, by decide, by decide, by decide,
              by decide⟩
          obtain ⟨hw₁, blks, blocks, hd₁, -⟩ := Writer.of_runCalls _ hw hd hvalid hadd
          rw [hd₁.listing hw₁, Writer.listingOf] at hlist
          split at hlist
          · cases hlist
            refine ⟨blks, blocks, hw₁, hd₁, hfind, fun r hr => ?_, hrename⟩
            have hall := List.all_eq_true.mp hfresh _ (List.mem_map_of_mem hr)
            have hno : nameEqCi (DirEntry.ofRaw r).name ['b'] = false := by simpa using hall
            exact hno
          · cases hlist
        · cases h
      · cases h

def addedAndRenamed : Evaluated addAndRename fun r =>
    emptyRoot r.1 && (r.2.2.2.1.all fun e => !nameEqCi e.name ['b']) &&
      decide (r.2.2.2.2.comment = [] ∧ r.2.2.2.2.extra = { fsizex := r.2.2.2.2.extra.fsizex } ∧
        r.2.2.2.2.creationDay = (r.2.1.clock r.2.1.asked).day % 65536 ∧
        r.2.2.2.2.creationMinute = (r.2.1.clock r.2.1.asked).minute % 65536 ∧
        r.2.2.2.2.creationTick = (r.2.1.clock r.2.1.asked).tick % 65536) :=
  .of (by decide +kernel)

theorem renameIn_keeps_plain : ∃ w w₂ blks₂ blocks₂ e e', w.Consistent ∧
    Writer.renameIn 5 ['a'] 5 ['b'] w = .ok () w₂ ∧ w₂.Consistent ∧
    w₂.HasDirectory 5 blks₂ blocks₂ ∧
    (blocks₂.flatten.map DirEntry.ofRaw).find? (fun e => nameEqCi e.name (storedName ['b'])) =
      some e' ∧
    (SameFields e e' ↔ Plain e (w.clock w.asked)) ∧ SameFields e e' := by
  obtain ⟨⟨w, w₁, w₂, es, e⟩, hrun, hcheck⟩ := addedAndRenamed
  rw [Bool.and_eq_true, Bool.and_eq_true] at hcheck
  obtain ⟨⟨hroot, hfresh⟩, hplain⟩ := hcheck
  obtain ⟨blks, blocks, hw, hd, hfind, hnew, hrename⟩ := of_addAndRename hrun hroot hfresh
  obtain ⟨blks₂, blocks₂, e', hw₂, hd₂, hfind', hiff⟩ :=
    Writer.renameIn_keeps_iff hw hd hd (Or.inl ⟨rfl, rfl, rfl⟩) hfind hnew hnew hrename
  have hp := of_decide_eq_true hplain
  exact ⟨w₁, w₂, blks₂, blocks₂, e, e', hw, hrename, hw₂, hd₂, hfind', hiff,
    hiff.mpr hp⟩

/-- A file with a name and a comment of one byte each. -/
def commentedEntry : Bytes :=
  [24, 253, 0, 0, 0, 6] ++ List.replicate 11 0 ++ [1, 97, 1, 120, 0, 0, 0]

/-- The volume of one anode block with the commented file in the root directory. -/
def commentedRoot : Device :=
  { oneAnodeBlock 512 with
    sectors := fun
      | 6 => .ofFields [(0, enc16 DBLKID), (20, commentedEntry)]
      | n => (oneAnodeBlock 512).sectors n }

def commentedVolume : Volume := { oneAnodeBlockVolume 512 with dev := commentedRoot }

theorem fromDevice_commentedRoot : Volume.fromDevice commentedRoot = .ok commentedVolume :=
  @Volume.fromDevice_of_parse commentedRoot (oneAnodeBlockRoot 512) (by decide : 4 ≤ 20)
    (by decide +kernel) (by decide +kernel) rfl (by decide) (by decide)

/-- A rename of the commented file in the root directory, and the entries before and after it. -/
def renameCommented : Option (Writer × Writer × DirEntry × DirEntry) :=
  match Writer.open commentedVolume fun _ => ⟨0, 0, 0⟩ with
  | .error _ => none
  | .ok w =>
      match Writer.renameIn 5 ['a'] 5 ['b'] w with
      | .error _ _ => none
      | .ok () w₂ =>
          match w.listing 5, w₂.listing 5 with
          | .ok [e], .ok [e'] => some (w, w₂, e, e')
          | _, _ => none

def renamedCommented : Evaluated renameCommented fun r =>
    decide (r.2.2.1.name = ['a'] ∧ r.2.2.1.comment = ['x'] ∧ r.2.2.2.name = ['b'] ∧
      r.2.2.2.comment = []) :=
  .of (by decide +kernel)

/-- The comment is gone. -/
theorem renameIn_drops_comment : ∃ w w₂ e e',
    Volume.fromDevice commentedRoot = .ok commentedVolume ∧
    Writer.open commentedVolume (fun _ => ⟨0, 0, 0⟩) = .ok w ∧
    w.listing 5 = .ok [e] ∧ e.name = ['a'] ∧ e.comment = ['x'] ∧
    Writer.renameIn 5 ['a'] 5 ['b'] w = .ok () w₂ ∧ w₂.listing 5 = .ok [e'] ∧ e'.name = ['b'] ∧
    e'.comment = [] ∧ ¬ SameFields e e' := by
  obtain ⟨⟨w, w₂, e, e'⟩, hrun, hcheck⟩ := renamedCommented
  obtain ⟨hname, hcomment, hname', hcomment'⟩ := of_decide_eq_true hcheck
  unfold renameCommented at hrun
  split at hrun
  · cases hrun
  · rename_i w' hopen
    split at hrun
    · cases hrun
    · rename_i w₂' hrename
      split at hrun
      · rename_i x x' hlist hlist'
        cases hrun
        refine ⟨w, w₂, e, e', fromDevice_commentedRoot, hopen, hlist, hname,
          hcomment, hrename, hlist', hname', hcomment', fun hsame => ?_⟩
        have hcon := congrArg DirEntry.comment hsame
        rw [hcomment'] at hcon
        change [] = e.comment at hcon
        rw [hcomment] at hcon
        cases hcon
      · cases hrun

end Pfs3
