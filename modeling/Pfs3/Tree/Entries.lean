import Pfs3.Tree.Start
import Pfs3.Tree.Calls

/-!
# Names and sizes

The names in the directories hold no slash, and a file has blocks enough for its size.
-/

namespace Pfs3

open ByteList Stop

/-! ## Names -/

/-- The byte of a slash stands for a slash. -/
theorem slash_of_mem_utf8 {c : Char} {b : UInt8} (h : b ∈ String.utf8EncodeChar c)
    (hb : b.toNat = 47) : c = '/' := by
  have hval : ∀ n : ℕ, (UInt8.ofNat n).toNat = n % 256 := fun n => by simp
  have hc : c.val.toNat = 47 → c = '/' := fun h => Char.ext (UInt32.toNat_inj.mp h)
  unfold String.utf8EncodeChar at h
  dsimp only at h
  split at h
  · obtain rfl := List.mem_singleton.mp h
    rw [hval] at hb
    exact hc (by omega)
  · exfalso
    split at h
    · simp only [List.mem_cons, List.not_mem_nil, or_false] at h
      rcases h with rfl | rfl <;> rw [hval] at hb <;> omega
    · split at h
      · simp only [List.mem_cons, List.not_mem_nil, or_false] at h
        rcases h with rfl | rfl | rfl <;> rw [hval] at hb <;> omega
      · simp only [List.mem_cons, List.not_mem_nil, or_false] at h
        rcases h with rfl | rfl | rfl | rfl <;> rw [hval] at hb <;> omega

/-- A slash in the stored name was one in the given name. -/
theorem slash_of_text {now : Datestamp} {name : Name} {ty : ℤ} {anode fsize prot : ℕ}
    (h : '/' ∈ (Entry.build now name ty anode fsize prot).text) : '/' ∈ name := by
  have hname : (Entry.build now name ty anode fsize prot).name = (asBytes name).take 107 := by
    rw [Entry.build]
  rw [Entry.text, hname] at h
  obtain ⟨b, hb, hslash⟩ := List.mem_map.mp h
  obtain ⟨c, hc, hbc⟩ := List.mem_flatMap.mp (List.mem_of_mem_take hb)
  have hlt := b.toNat_lt
  have hval : b.toNat = 47 := by
    have hvalid : b.toNat.isValidChar := Or.inl (by omega)
    rw [Char.ofNat, dif_pos hvalid] at hslash
    exact congrArg Char.toNat hslash
  exact slash_of_mem_utf8 hbc hval ▸ hc

theorem not_slash_of_splitOn {path : Name} : ∀ {part : Name}, part ∈ path.splitOn '/' →
    '/' ∉ part := by
  unfold List.splitOn
  induction path with
  | nil =>
      intro part h
      rw [List.splitOnP_nil, List.mem_singleton] at h
      rw [h]
      exact List.not_mem_nil
  | cons c path ih =>
      intro part h
      rw [List.splitOnP_cons_eq_if_modifyHead] at h
      split at h
      · rcases List.mem_cons.mp h with rfl | h
        · exact List.not_mem_nil
        · exact ih h
      · rename_i hc
        rcases hp : path.splitOnP (· == '/') with _ | ⟨head, rest⟩
        · rw [hp] at h
          cases h
        · rw [hp] at h ih
          rcases List.mem_cons.mp h with rfl | h
          · intro hmem
            rcases List.mem_cons.mp hmem with rfl | hmem
            · exact hc rfl
            · exact ih List.mem_cons_self hmem
          · exact ih (List.mem_cons_of_mem _ h)

/-- The last component of a path. -/
theorem not_slash_of_splitPath {S S' : Store} {path name : Name} {p : ℕ}
    (h : Store.splitPath path S = .ok (p, name) S') : '/' ∉ name := by
  unfold Store.splitPath at h
  cases hlast : (pathParts path).getLast? with
  | none =>
      simp only [hlast] at h
      cases h
  | some filename =>
      simp only [hlast] at h
      obtain ⟨q, S₁, -, hrun⟩ := of_bind_eq_ok h
      cases hrun
      have hmem := List.mem_of_getLast? hlast
      exact not_slash_of_splitOn (List.mem_filter.mp hmem).1

/-! ## Sizes -/

namespace Entry

theorem entryType_rebuild {now : Datestamp} {name : Name} {anode fsize prot : ℕ} (e : Entry) :
    (build now name e.entryType anode fsize prot).entryType = e.entryType := by
  rw [entryType_build]
  exact signed_type e.type

theorem fileSize_le {lo hi size : ℕ} (hlo : lo = size % 2 ^ 32)
    (hhi : hi ≤ size / 2 ^ 32) : lo ||| (hi <<< 32) ≤ size := by
  have hlt : lo < 2 ^ 32 := by omega
  rw [Nat.or_comm, ← Nat.shiftLeft_add_eq_or_of_lt hlt, Nat.shiftLeft_eq]
  omega

theorem fileSize_build_le (now : Datestamp) (name : Name) (ty : ℤ) (anode fsize prot : ℕ) :
    (build now name ty anode fsize prot).fileSize ≤ fsize := by
  have hu : U32 = 2 ^ 32 := rfl
  have hlo : (build now name ty anode fsize prot).fsize = UInt32.ofNat fsize := by rw [build]
  have hhi : (build now name ty anode fsize prot).fsizex =
      if 0 < fsize / U32 % 65536 then some (UInt16.ofNat (fsize / U32)) else none := by rw [build]
  rw [fileSize, hlo, hhi]
  refine fileSize_le (UInt32.toNat_ofNat' ..) ?_
  split
  · rw [Option.map_some, Option.getD_some, UInt16.toNat_ofNat', hu]
    exact Nat.mod_le _ _
  · exact Nat.zero_le _

/-- The two fields of a size together. -/
theorem halves_of_size {lo hi size : ℕ} (hlo : lo = size % 2 ^ 32) (hhi : hi = size / 2 ^ 32) :
    lo ||| (hi <<< 32) = size := by
  have hlt : lo < 2 ^ 32 := by omega
  rw [Nat.or_comm, ← Nat.shiftLeft_add_eq_or_of_lt hlt, Nat.shiftLeft_eq]
  omega

/-- Sizes below 2^48 are stored whole in a new entry. -/
theorem fileSize_build_whole {now : Datestamp} {name : Name} {ty : ℤ} {anode prot size : ℕ}
    (h : size < 2 ^ 48) : (build now name ty anode size prot).fileSize = size := by
  have hu : U32 = 2 ^ 32 := rfl
  have hlo : (build now name ty anode size prot).fsize = UInt32.ofNat size := by rw [build]
  have hhi : (build now name ty anode size prot).fsizex =
      if 0 < size / U32 % 65536 then some (UInt16.ofNat (size / U32)) else none := by rw [build]
  rw [fileSize, hlo, hhi]
  refine halves_of_size (UInt32.toNat_ofNat' ..) ?_
  split
  · rw [Option.map_some, Option.getD_some, UInt16.toNat_ofNat', hu]
    omega
  · rename_i hzero
    rw [hu] at hzero
    rw [Option.map_none, Option.getD_none]
    omega

theorem fileSize_lt (e : Entry) : e.fileSize < 2 ^ 48 := by
  have hlo := e.fsize.toNat_lt
  have hhi : (e.fsizex.map UInt16.toNat).getD 0 < 65536 := by
    cases e.fsizex with
    | none => exact Nat.zero_lt_succ _
    | some x => exact x.toNat_lt
  rw [fileSize, Nat.or_comm, ← Nat.shiftLeft_add_eq_or_of_lt hlo, Nat.shiftLeft_eq]
  omega

/-- A size that was read back is stored whole. -/
theorem fileSize_rebuild {now : Datestamp} {name : Name} {ty : ℤ} {anode prot : ℕ} (e : Entry) :
    (build now name ty anode e.fileSize prot).fileSize = e.fileSize :=
  fileSize_build_whole e.fileSize_lt

theorem fileSize_setSize_le (e : Entry) (size : ℕ) (now : Datestamp) :
    (e.setSize size now).fileSize ≤ size := by
  have hu : U32 = 2 ^ 32 := rfl
  refine fileSize_le (UInt32.toNat_ofNat' ..) ?_
  show ((e.fsizex.map fun _ => UInt16.ofNat (size / U32)).map UInt16.toNat).getD 0 ≤ _
  cases e.fsizex with
  | none => exact Nat.zero_le _
  | some x =>
      rw [Option.map_some, Option.map_some, Option.getD_some, UInt16.toNat_ofNat', hu]
      exact Nat.mod_le _ _

/-- Sizes below 4 GiB are stored whole. -/
theorem fileSize_setSize (e : Entry) {size : ℕ} (now : Datestamp) (h : size < U32) :
    (e.setSize size now).fileSize = size := by
  have hu : U32 = 2 ^ 32 := rfl
  have hzero : size / U32 = 0 := Nat.div_eq_of_lt h
  have hext : ((e.fsizex.map fun _ => UInt16.ofNat (size / U32)).map UInt16.toNat).getD 0 = 0 := by
    rw [hzero]
    cases e.fsizex <;> rfl
  have hsplit : (e.setSize size now).fileSize = (UInt32.ofNat size).toNat |||
      (((e.fsizex.map fun _ => UInt16.ofNat (size / U32)).map UInt16.toNat).getD 0 <<< 32) := rfl
  rw [hsplit, hext, Nat.zero_shiftLeft, Nat.or_zero, UInt32.toNat_ofNat',
    Nat.mod_eq_of_lt (hu ▸ h)]

/-- So are sizes below 2^48 in an entry that has the field for the upper half. -/
theorem fileSize_setSize_wide {e : Entry} {size : ℕ} (now : Datestamp) (h : size < 2 ^ 48)
    (hx : e.fsizex.isSome = true) : (e.setSize size now).fileSize = size := by
  have hu : U32 = 2 ^ 32 := rfl
  obtain ⟨x, hx⟩ := Option.isSome_iff_exists.mp hx
  refine halves_of_size (UInt32.toNat_ofNat' ..) ?_
  show ((e.fsizex.map fun _ => UInt16.ofNat (size / U32)).map UInt16.toNat).getD 0 = _
  rw [hx, Option.map_some, Option.map_some, Option.getD_some, UInt16.toNat_ofNat', hu]
  omega

theorem isDir_of_neg {e : Entry} (h : e.entryType < 0) : e.isDir = false := by
  have hdir : ST_USERDIR = 2 := rfl
  rw [isDir, hdir]
  exact beq_eq_false_iff_ne.mpr (by omega)

end Entry

theorem Writer.le_blocksFor (length : ℕ) : length ≤ Writer.blocksFor length * SECTOR_SIZE := by
  have hs : SECTOR_SIZE = 512 := rfl
  unfold Writer.blocksFor
  rw [hs]
  omega

namespace Store

variable {S S' : Store} {T T' : Owners}

/-- The names have no slash, and the blocks of a file are enough for its size. -/
structure Tidy (S : Store) (T : Owners) : Prop where
  name : ∀ p e, e ∈ entriesOf S.live T p → '/' ∉ e.text
  size : ∀ p e n, e ∈ entriesOf S.live T p → e.entryType < 0 → T e.anode.toNat = some n →
    e.fileSize ≤ n.blocks.length * SECTOR_SIZE

/-- New entries are tidy; the others kept their name, their size and their file. -/
theorem Tidy.step (ht : S.Tidy T) (h : ∀ q x, x ∈ entriesOf S'.live T' q →
    ('/' ∉ x.text ∧ (x.entryType < 0 → ∀ n, T' x.anode.toNat = some n →
      x.fileSize ≤ n.blocks.length * SECTOR_SIZE)) ∨
    ∃ y ∈ entriesOf S.live T q, y.text = x.text ∧ y.fileSize = x.fileSize ∧ y.anode = x.anode ∧
      y.entryType = x.entryType ∧ (x.entryType < 0 → ∀ n, T' x.anode.toNat = some n →
        T x.anode.toNat = some n)) : S'.Tidy T' where
  name q x hx := by
    rcases h q x hx with ⟨hname, -⟩ | ⟨y, hy, htext, -⟩
    · exact hname
    · exact htext ▸ ht.name q y hy
  size q x n hx hneg hn := by
    rcases h q x hx with ⟨-, hsize⟩ | ⟨y, hy, -, hsize, hanode, htype, hown⟩
    · exact hsize hneg n hn
    · rw [← hsize]
      exact ht.size q y n hy (htype ▸ hneg) (hanode ▸ hown hneg n hn)

/-- A file is no directory. -/
theorem Settled.not_dir (h : S.Settled T) {q d : ℕ} {x : Entry} (hx : x ∈ entriesOf S.live T q)
    (hneg : x.entryType < 0) (hd : kinds T d = some true) : x.anode.toNat ≠ d := by
  rintro rfl
  have hk := (h.forest.entry hx).1
  rw [hd, Entry.isDir_of_neg hneg] at hk
  cases hk

theorem Tidy.entered {p nr : ℕ} {m : Node} {e : Entry} (ht : S.Tidy T) (h : S.Settled T)
    (he : Entered S S' T T' p nr m e) (hname : '/' ∉ e.text)
    (hsize : e.entryType < 0 → e.fileSize ≤ m.blocks.length * SECTOR_SIZE) : S'.Tidy T' := by
  refine ht.step fun q x hx => ?_
  have hcase : x = e ∨ x ∈ entriesOf S.live T q := by
    by_cases hq : q = p
    · subst hq
      obtain ⟨l₁, l₂, hl, hl'⟩ := he.entries
      rw [hl', Forest.mem_middle] at hx
      exact hx.imp_right fun hx => hl ▸ hx
    · exact Or.inr (he.entries_other q hq ▸ hx)
  rcases hcase with rfl | hx
  · refine Or.inl ⟨hname, fun hneg n hn => ?_⟩
    rw [he.anode, he.node] at hn
    cases hn
    exact hsize hneg
  · refine Or.inr ⟨x, hx, rfl, rfl, rfl, rfl, fun hneg n hn => ?_⟩
    obtain ⟨m₀, hm₀, -⟩ := h.node hx
    have hnr : x.anode.toNat ≠ nr := by
      intro heq
      rw [heq, he.new] at hm₀
      cases hm₀
    rw [← he.others _ (h.not_dir hx hneg he.dir) hnr]
    exact hn

theorem Tidy.deleted {p : ℕ} {e : Entry} {l₁ l₂ : List Entry} (ht : S.Tidy T)
    (hdel : Deleted S S' T p e l₁ l₂) : S'.Tidy (Function.update T e.anode.toNat none) := by
  refine ht.step fun q x hx => Or.inr ⟨x, ?_, rfl, rfl, rfl, rfl, fun _ n hn => ?_⟩
  · by_cases hq : q = p
    · subst hq
      rw [hdel.entries] at hx
      rw [hdel.old]
      exact Forest.mem_middle.mpr (Or.inr hx)
    · exact hdel.entries_other q hq ▸ hx
  · by_cases hxe : x.anode.toNat = e.anode.toNat
    · rw [hxe, Function.update_self] at hn
      cases hn
    · rw [Function.update_of_ne hxe] at hn
      exact hn

theorem Tidy.moved {s d : ℕ} {e e' : Entry} (ht : S.Tidy T) (h : S.Settled T)
    (hm : Moved S S' T T' s d e e') (hname : '/' ∉ e'.text) (hsize : e'.fileSize ≤ e.fileSize)
    (htype : e'.entryType = e.entryType) : S'.Tidy T' := by
  refine ht.step fun q x hx => ?_
  rcases hm.entries q x hx with hx | ⟨-, rfl⟩
  · refine Or.inr ⟨x, hx, rfl, rfl, rfl, rfl, fun hneg n hn => ?_⟩
    rw [← hm.others _ (h.not_dir hx hneg hm.dir)]
    exact hn
  · refine Or.inl ⟨hname, fun hneg n hn => hsize.trans ?_⟩
    rw [htype] at hneg
    rw [hm.anode, hm.others _ (h.not_dir hm.old hneg hm.dir)] at hn
    exact ht.size s e n hm.old hneg hn

theorem Tidy.rewritten {p : ℕ} {e : Entry} {m : Node} {now : Datestamp} {data : Bytes}
    (ht : S.Tidy T) (h : S.Settled T) (hw : Rewritten S S' T p e m now data)
    (hdata : Writer.blocksFor data.length < U32) :
    S'.Tidy (Function.update T e.anode.toNat (some m)) := by
  obtain ⟨l₁, l₂, hl, hl'⟩ := hw.entries
  have he : e ∈ entriesOf S.live T p := by rw [hl]; exact Forest.mem_middle.mpr (Or.inl rfl)
  -- the entry is the only one of its file
  have hold : ∀ q x, x ∈ entriesOf S.live T q → (q = p → x ∈ l₁ ++ l₂) → ∀ n,
      Function.update T e.anode.toNat (some m) x.anode.toNat = some n →
      T x.anode.toNat = some n := by
    intro q x hx hrest n hn
    have hne : x.anode.toNat ≠ e.anode.toNat := by
      intro heq
      have hanode := UInt32.toNat_inj.mp heq
      have hq := h.forest.parent hx he hanode
      have hnodup := h.forest.nodup p
      rw [hl, Forest.nodup_middle] at hnodup
      exact hnodup.1 x (hrest hq) hanode
    rw [Function.update_of_ne hne] at hn
    exact hn
  refine ht.step fun q x hx => ?_
  by_cases hq : q = p
  · subst hq
    rw [hl', Forest.mem_middle] at hx
    rcases hx with rfl | hx
    · refine Or.inl ⟨fun hslash => ht.name q e he hslash, fun _ n hn => ?_⟩
      have hn' : Function.update T e.anode.toNat (some m) e.anode.toNat = some n := hn
      rw [Function.update_self] at hn'
      cases hn'
      rw [hw.length, Nat.mod_eq_of_lt hdata]
      exact (Entry.fileSize_setSize_le e _ _).trans (Writer.le_blocksFor _)
    · have hmem : x ∈ entriesOf S.live T q := by
        rw [hl]
        exact Forest.mem_middle.mpr (Or.inr hx)
      exact Or.inr ⟨x, hmem, rfl, rfl, rfl, rfl, fun _ => hold q x hmem fun _ => hx⟩
  · rw [hw.entries_other q hq] at hx
    exact Or.inr ⟨x, hx, rfl, rfl, rfl, rfl, fun _ => hold q x hx fun heq => absurd heq hq⟩

theorem Tidy.protected {p : ℕ} {e : Entry} {protection : UInt8} (ht : S.Tidy T)
    (hp : Protected S S' T p e protection) : S'.Tidy T := by
  refine ht.step fun q x hx => Or.inr ?_
  by_cases hq : q = p
  · subst hq
    obtain ⟨l₁, l₂, hl, hl'⟩ := hp.entries
    rw [hl', Forest.mem_middle] at hx
    rw [hl]
    rcases hx with rfl | hx
    · exact ⟨e, Forest.mem_middle.mpr (Or.inl rfl), rfl, rfl, rfl, rfl, fun _ _ h => h⟩
    · exact ⟨x, Forest.mem_middle.mpr (Or.inr hx), rfl, rfl, rfl, rfl, fun _ _ h => h⟩
  · exact ⟨x, hp.entries_other q hq ▸ hx, rfl, rfl, rfl, rfl, fun _ _ h => h⟩

/-- The data has less than `2 ^ 32` blocks, and a new name has no slash. -/
def KeepsTidy : Call → Prop
  | .writeFile _ data => Writer.blocksFor data.length < U32
  | .renameIn _ _ _ dstName => '/' ∉ dstName
  | _ => True

theorem StoredAs.fileSize_le {m : Node} {data : Bytes} (h : StoredAs S S' m data)
    (hdata : Writer.blocksFor data.length < U32) (now : Datestamp) (name : Name) (ty : ℤ)
    (anode prot : ℕ) :
    (Entry.build now name ty anode data.length prot).fileSize ≤ m.blocks.length * SECTOR_SIZE := by
  rw [h.length, Nat.mod_eq_of_lt hdata]
  exact (Entry.fileSize_build_le ..).trans (Writer.le_blocksFor _)

/-- The invariant over one call. -/
theorem Tidy.effect {c : Call} (ht : S.Tidy T) (h : S.Settled T) (he : Effect S S' T T' c)
    (hc : KeepsTidy c) : S'.Tidy T' := by
  cases he with
  | wrote split _ enter stored =>
      exact ht.entered h enter (fun hs => not_slash_of_splitPath split (slash_of_text hs))
        fun _ => stored.fileSize_le hc ..
  | rewrote _ _ _ rewritten owners => exact owners ▸ ht.rewritten h rewritten hc
  | madeDir split isDir enter =>
      refine ht.entered h enter (fun hs => not_slash_of_splitPath split (slash_of_text hs))
        fun hneg => ?_
      have hdir := enter.isDir.trans isDir
      rw [Entry.isDir_of_neg hneg] at hdir
      cases hdir
  | linked split enter _ =>
      refine ht.entered h enter (fun hs => not_slash_of_splitPath split (slash_of_text hs))
        fun hneg => ?_
      rw [Entry.entryType_build] at hneg
      exact absurd hneg (by decide)
  | deleted _ gone owners => exact owners ▸ ht.deleted gone
  | renamed _ clear moved =>
      obtain ⟨hset, ht₁⟩ : Settled _ _ ∧ Tidy _ _ := by
        cases clear with
        | kept store owners _ => exact ⟨store ▸ owners ▸ h, store ▸ owners ▸ ht⟩
        | deleted _ _ _ _ _ gone owners => exact ⟨owners ▸ gone.settled, owners ▸ ht.deleted gone⟩
      exact ht₁.moved hset moved (fun hs => hc (slash_of_text hs)) (Entry.fileSize_build_le ..)
        (Entry.entryType_rebuild _)
  | reprotected changed owners => exact owners ▸ ht.protected changed
  | named settled live _ _ owners =>
      subst owners
      refine ⟨fun p e hp => ht.name p e (live ▸ hp), fun p e n hp => ht.size p e n (live ▸ hp)⟩

end Store

theorem Geometry.tidy_freshStore (g : Geometry) (data : ℕ → Sector) (clock : ℕ → Datestamp) :
    (g.freshStore data clock).Tidy g.freshOwners := by
  have hempty : ∀ p, Store.entriesOf (g.freshStore data clock).live g.freshOwners p = [] :=
    g.entriesOf_freshStore data clock
  refine ⟨fun p e he => ?_, fun p e n he => ?_⟩ <;> rw [hempty] at he <;> cases he

end Pfs3
