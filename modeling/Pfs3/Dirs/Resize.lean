import Pfs3.Blocks.Commit
import Pfs3.Dirs.Encode
import Pfs3.Dirs.Search

/-!
# Resizing an entry in place

`update_dir_entry_size` patches the size of an entry of any shape that the parser accepts: with a
comment, and with any of the optional extra fields.  It finds the optional upper half of the size
by a walk of its own over the flags.
-/

namespace Pfs3

open ByteList Stop

/-! ## Bytes left alone -/

/-- The two byte strings agree between `lo` and `hi`. -/
def Same (raw raw' : Bytes) (lo hi : ℕ) : Prop :=
  ∀ p n, lo ≤ p → p + n ≤ hi → (raw'.drop p).take n = (raw.drop p).take n

section Same

variable {raw raw' raw'' : Bytes} {lo hi p : ℕ}

theorem Same.trans (h : Same raw raw' lo hi) (h' : Same raw' raw'' lo hi) : Same raw raw'' lo hi :=
  fun p n hp hn => (h' p n hp hn).trans (h p n hp hn)

theorem Same.be16 (h : Same raw raw' lo hi) (hlo : lo ≤ p) (hhi : p + 2 ≤ hi) :
    be16 raw' p = be16 raw p := be16_eq_of_take (h p 2 hlo hhi)

theorem Same.be32 (h : Same raw raw' lo hi) (hlo : lo ≤ p) (hhi : p + 4 ≤ hi) :
    be32 raw' p = be32 raw p := be32_eq_of_take (h p 4 hlo hhi)

theorem Same.getD (h : Same raw raw' lo hi) (hlo : lo ≤ p) (hhi : p + 1 ≤ hi) :
    raw'.getD p 0 = raw.getD p 0 := by
  have hfirst : ∀ l : Bytes, l.getD p 0 = ((l.drop p).take 1).getD 0 0 := fun l => by
    rw [List.getD_eq_getElem?_getD, List.getD_eq_getElem?_getD,
      List.getElem?_take_of_lt Nat.zero_lt_one, List.getElem?_drop, Nat.add_zero]
  rw [hfirst raw', hfirst raw, h p 1 hlo hhi]

/-- A write outside of a range. -/
theorem same_splice {src : Bytes} {off : ℕ} (hfit : off + src.length ≤ raw.length)
    (h : hi ≤ off ∨ off + src.length ≤ lo) : Same raw (splice raw off src) lo hi := by
  intro p n hp hn
  refine take_drop_splice hfit ?_
  rcases h with h | h
  · exact Or.inl (by omega)
  · exact Or.inr (by omega)

end Same

/-! ## The extra fields of an entry -/

/-- Where the extra fields start: behind the comment, at an even offset. -/
def fieldStart (raw : Bytes) (nlen : ℕ) : ℕ :=
  let start := 18 + nlen + 1 + (raw.getD (18 + nlen) 0).toNat
  if start % 2 ≠ 0 then start + 1 else start

/-- The flags that say which extra fields there are. -/
def flagsOf (raw : Bytes) (nlen : ℕ) : ℕ := be16 raw (fieldStart raw nlen)

/-- The flags lie in the entry. -/
def HasFlags (raw : Bytes) (nlen : ℕ) : Prop :=
  18 + nlen < raw.length ∧ fieldStart raw nlen + 2 ≤ raw.length

instance (raw : Bytes) (nlen : ℕ) : Decidable (HasFlags raw nlen) :=
  inferInstanceAs (Decidable (_ ∧ _))

/-- Bytes taken by those of the fields, given by flag and width, that are there. -/
def widths (flags : ℕ) : List (ℕ × ℕ) → ℕ
  | [] => 0
  | (flag, width) :: rest => (if flags &&& flag ≠ 0 then width else 0) + widths flags rest

/-- Flags and widths of the fields in front of `fsizex`. -/
def lowFields : List (ℕ × ℕ) :=
  [(0x0001, 4), (0x0002, 2), (0x0004, 2), (0x0008, 4), (0x0010, 4), (0x0020, 4)]

/-- Where `fsizex` stands, if it is there. -/
def fsizexAt (raw : Bytes) (nlen : ℕ) : ℕ :=
  fieldStart raw nlen + 2 + widths (flagsOf raw nlen) lowFields

/-- The extra fields fit the entry. -/
def FieldsFit (raw : Bytes) (nlen : ℕ) : Prop :=
  HasFlags raw nlen →
    fsizexAt raw nlen + (if flagsOf raw nlen &&& 0x0040 ≠ 0 then 2 else 0) ≤ raw.length

instance (raw : Bytes) (nlen : ℕ) : Decidable (FieldsFit raw nlen) :=
  inferInstanceAs (Decidable (_ → _))

/-- The entry has the field for the upper half of its size. -/
def HasFsizex (raw : Bytes) (nlen : ℕ) : Prop :=
  HasFlags raw nlen ∧ flagsOf raw nlen &&& 0x0040 ≠ 0

instance (raw : Bytes) (nlen : ℕ) : Decidable (HasFsizex raw nlen) :=
  inferInstanceAs (Decidable (_ ∧ _))

theorem le_fieldStart (raw : Bytes) (nlen : ℕ) :
    18 + nlen + 1 + (raw.getD (18 + nlen) 0).toNat ≤ fieldStart raw nlen := by
  unfold fieldStart
  dsimp only
  split
  · exact Nat.le_succ _
  · exact le_rfl

section Parser

variable {raw raw' : Bytes} {lo hi flags flag width pos nlen : ℕ}

/-- One field that fits, read from two entries that agree on it. -/
theorem takeField_same (h : Same raw raw' lo hi) (hlen : raw'.length = raw.length)
    (hlo : lo ≤ pos) (hhi : pos + (if flags &&& flag ≠ 0 then width else 0) ≤ hi)
    (hend : hi ≤ raw.length) (hw : width = 2 ∨ width = 4) :
    DirEntry.takeField raw' flags flag width pos = DirEntry.takeField raw flags flag width pos ∧
      (DirEntry.takeField raw flags flag width pos).2 =
        pos + (if flags &&& flag ≠ 0 then width else 0) := by
  unfold DirEntry.takeField
  by_cases hflag : flags &&& flag ≠ 0
  · rw [if_pos hflag] at hhi ⊢
    have hin : flags &&& flag ≠ 0 ∧ pos + width ≤ raw.length := ⟨hflag, by omega⟩
    have hin' : flags &&& flag ≠ 0 ∧ pos + width ≤ raw'.length := ⟨hflag, by omega⟩
    rw [if_pos hin, if_pos hin']
    refine ⟨?_, rfl⟩
    rcases hw with rfl | rfl
    · rw [if_neg (by decide), if_neg (by decide), h.be16 hlo hhi]
    · rw [if_pos rfl, if_pos rfl, h.be32 hlo hhi]
  · rw [if_neg hflag] at hhi ⊢
    rw [if_neg fun hcon => hflag hcon.1, if_neg fun hcon => hflag hcon.1]
    exact ⟨rfl, rfl⟩

theorem parseExtrafields_of_not_hasFlags (h : ¬ HasFlags raw nlen) :
    DirEntry.parseExtrafields raw nlen = {} := by
  unfold DirEntry.parseExtrafields
  dsimp only
  by_cases hname : raw.length ≤ 18 + nlen
  · rw [if_pos hname]
  · rw [if_neg hname]
    exact if_pos (Nat.lt_of_not_le fun hle => h ⟨Nat.lt_of_not_le hname, hle⟩)

theorem parseExtrafields_fields (r : Bytes) (nlen : ℕ) : DirEntry.parseExtrafields r nlen =
    if r.length ≤ 18 + nlen then {} else if r.length < fieldStart r nlen + 2 then {} else
      let flags := be16 r (fieldStart r nlen)
      let (link, pos) := DirEntry.takeField r flags 0x0001 4 (fieldStart r nlen + 2)
      let (uid, pos) := DirEntry.takeField r flags 0x0002 2 pos
      let (gid, pos) := DirEntry.takeField r flags 0x0004 2 pos
      let (prot, pos) := DirEntry.takeField r flags 0x0008 4 pos
      let (virtualsize, pos) := DirEntry.takeField r flags 0x0010 4 pos
      let (rollpointer, pos) := DirEntry.takeField r flags 0x0020 4 pos
      let (fsizex, _) := DirEntry.takeField r flags 0x0040 2 pos
      { link := link.getD 0, uid := uid.getD 0, gid := gid.getD 0, prot := prot.getD 0,
        virtualsize := virtualsize.getD 0, rollpointer := rollpointer.getD 0,
        fsizex := fsizex.getD 0 } := rfl

/-- The extra fields of two entries that agree from the comment's length up to `fsizex`. -/
theorem parseExtrafields_same (hlen : raw'.length = raw.length) (hflags : HasFlags raw nlen)
    (hfit : FieldsFit raw nlen) (h : Same raw raw' (18 + nlen) (fsizexAt raw nlen)) :
    DirEntry.parseExtrafields raw' nlen =
      { DirEntry.parseExtrafields raw nlen with
        fsizex := if flagsOf raw nlen &&& 0x0040 ≠ 0 then be16 raw' (fsizexAt raw nlen) else 0 } := by
  have hfit := hfit hflags
  have hstart := le_fieldStart raw nlen
  obtain ⟨hname, hin⟩ := hflags
  have hx : fsizexAt raw nlen = fieldStart raw nlen + 2 + widths (flagsOf raw nlen) lowFields := rfl
  have hclen : raw'.getD (18 + nlen) 0 = raw.getD (18 + nlen) 0 := h.getD le_rfl (by omega)
  have hsame : fieldStart raw' nlen = fieldStart raw nlen := by
    unfold fieldStart
    rw [hclen]
  have hword : be16 raw' (fieldStart raw nlen) = flagsOf raw nlen := h.be16 (by omega) (by omega)
  rw [parseExtrafields_fields raw', parseExtrafields_fields raw, hsame, hlen, hword, if_neg (by omega), if_neg (by omega),
    if_neg (by omega), if_neg (by omega)]
  have hword' : be16 raw (fieldStart raw nlen) = flagsOf raw nlen := rfl
  rw [hword']
  generalize fsizexAt raw nlen = stop at *
  generalize flagsOf raw nlen = flags at *
  simp only [widths, lowFields] at hx
  dsimp only
  -- the six fields in front of `fsizex`, one after the other
  obtain ⟨h₁, e₁⟩ := @takeField_same raw raw' (18 + nlen) stop flags 0x0001 4
    (fieldStart raw nlen + 2) h hlen (by omega) (by omega) (by omega) (Or.inr rfl)
  rw [h₁]
  generalize DirEntry.takeField raw flags 0x0001 4 (fieldStart raw nlen + 2) = t₁ at *
  obtain ⟨link, p₁⟩ := t₁
  dsimp only at e₁ ⊢
  obtain ⟨h₂, e₂⟩ := @takeField_same raw raw' (18 + nlen) stop flags 0x0002 2 p₁ h hlen (by omega)
    (by omega) (by omega) (Or.inl rfl)
  rw [h₂]
  generalize DirEntry.takeField raw flags 0x0002 2 p₁ = t₂ at *
  obtain ⟨uid, p₂⟩ := t₂
  dsimp only at e₂ ⊢
  obtain ⟨h₃, e₃⟩ := @takeField_same raw raw' (18 + nlen) stop flags 0x0004 2 p₂ h hlen (by omega)
    (by omega) (by omega) (Or.inl rfl)
  rw [h₃]
  generalize DirEntry.takeField raw flags 0x0004 2 p₂ = t₃ at *
  obtain ⟨gid, p₃⟩ := t₃
  dsimp only at e₃ ⊢
  obtain ⟨h₄, e₄⟩ := @takeField_same raw raw' (18 + nlen) stop flags 0x0008 4 p₃ h hlen (by omega)
    (by omega) (by omega) (Or.inr rfl)
  rw [h₄]
  generalize DirEntry.takeField raw flags 0x0008 4 p₃ = t₄ at *
  obtain ⟨prot, p₄⟩ := t₄
  dsimp only at e₄ ⊢
  obtain ⟨h₅, e₅⟩ := @takeField_same raw raw' (18 + nlen) stop flags 0x0010 4 p₄ h hlen (by omega)
    (by omega) (by omega) (Or.inr rfl)
  rw [h₅]
  generalize DirEntry.takeField raw flags 0x0010 4 p₄ = t₅ at *
  obtain ⟨virtualsize, p₅⟩ := t₅
  dsimp only at e₅ ⊢
  obtain ⟨h₆, e₆⟩ := @takeField_same raw raw' (18 + nlen) stop flags 0x0020 4 p₅ h hlen (by omega)
    (by omega) (by omega) (Or.inr rfl)
  rw [h₆]
  generalize DirEntry.takeField raw flags 0x0020 4 p₅ = t₆ at *
  obtain ⟨rollpointer, p₆⟩ := t₆
  dsimp only at e₆ ⊢
  have hp₆ : p₆ = stop := by omega
  subst hp₆
  unfold DirEntry.takeField
  by_cases hflag : flags &&& 0x0040 ≠ 0
  · rw [if_pos hflag] at hfit ⊢
    rw [if_pos ⟨hflag, by omega⟩, if_neg (by decide)]
    rfl
  · rw [if_neg hflag, if_neg fun hcon => hflag hcon.1]
    rfl

end Parser

/-! ## The patched entry -/

/-- Several writes into one byte string, in order. -/
def spliceAll (d : Bytes) (writes : List (ℕ × Bytes)) : Bytes :=
  writes.foldl (fun d p => splice d p.1 p.2) d

section SpliceAll

variable {d : Bytes} {writes : List (ℕ × Bytes)} {lo hi : ℕ}

theorem spliceAll_cons (off : ℕ) (src : Bytes) (rest : List (ℕ × Bytes)) :
    spliceAll d ((off, src) :: rest) = spliceAll (splice d off src) rest := rfl

theorem length_spliceAll : ∀ {d : Bytes} {writes : List (ℕ × Bytes)},
    (∀ p ∈ writes, p.1 + p.2.length ≤ d.length) → (spliceAll d writes).length = d.length := by
  intro d writes
  induction writes generalizing d with
  | nil => exact fun _ => rfl
  | cons p rest ih =>
      intro h
      have hp := length_splice (h p List.mem_cons_self)
      have hrest := ih fun q hq => by
        rw [hp]
        exact h q (List.mem_cons_of_mem p hq)
      exact hrest.trans hp

/-- Writes outside of a range. -/
theorem same_spliceAll : ∀ {d : Bytes} {writes : List (ℕ × Bytes)},
    (∀ p ∈ writes, p.1 + p.2.length ≤ d.length) →
    (∀ p ∈ writes, hi ≤ p.1 ∨ p.1 + p.2.length ≤ lo) → Same d (spliceAll d writes) lo hi := by
  intro d writes
  induction writes generalizing d with
  | nil => exact fun _ _ _ _ _ _ => rfl
  | cons p rest ih =>
      intro h hout
      have hp := length_splice (h p List.mem_cons_self)
      refine (same_splice (h p List.mem_cons_self) (hout p List.mem_cons_self)).trans ?_
      refine ih (fun q hq => ?_) fun q hq => hout q (List.mem_cons_of_mem p hq)
      rw [hp]
      exact h q (List.mem_cons_of_mem p hq)

/-- What one of the writes leaves, when no later one touches it. -/
theorem take_spliceAll (off : ℕ) (src : Bytes) (before after : List (ℕ × Bytes))
    (h : ∀ p ∈ before ++ (off, src) :: after, p.1 + p.2.length ≤ d.length)
    (hout : ∀ p ∈ after, off + src.length ≤ p.1 ∨ p.1 + p.2.length ≤ off) :
    ((spliceAll d (before ++ (off, src) :: after)).drop off).take src.length = src := by
  have hbefore := @length_spliceAll d before
    fun p hp => h p (List.mem_append_left _ hp)
  have hoff : off + src.length ≤ (spliceAll d before).length := by
    rw [hbefore]
    exact h (off, src) (List.mem_append_right _ List.mem_cons_self)
  have hmid := length_splice hoff
  have hsame := @same_spliceAll off (off + src.length) (splice (spliceAll d before) off src) after
    (fun p hp => by
      rw [hmid, hbefore]
      exact h p (List.mem_append_right _ (List.mem_cons_of_mem _ hp))) hout
  have hsplit : spliceAll d (before ++ (off, src) :: after) =
      spliceAll (splice (spliceAll d before) off src) after := by
    rw [spliceAll, List.foldl_append]
    rfl
  rw [hsplit, hsame off src.length le_rfl le_rfl]
  exact take_drop_splice_self hoff

end SpliceAll

/-- The writes of `update_dir_entry_size` into an entry, `fx` being where `fsizex` stands. -/
def sizeWrites (size : ℕ) (fx : Option ℕ) (now : Datestamp) : List (ℕ × Bytes) :=
  (6, enc32 size) :: ((fx.map fun p => (p, enc16 (size / U32))).toList ++
    [(10, enc16 now.day), (12, enc16 now.minute), (14, enc16 now.tick)])

/-- The new entry differs from the old one in size and date only. -/
def Resized (e e' : DirEntry) : Prop :=
  e' = { e with
    fsize := e'.fsize
    creationDay := e'.creationDay
    creationMinute := e'.creationMinute
    creationTick := e'.creationTick
    extra := { e.extra with fsizex := e'.extra.fsizex } }

section Patched

variable {raw : Bytes} {size lo hi : ℕ} {fx : Option ℕ} {now : Datestamp}

theorem mem_sizeWrites {p : ℕ × Bytes} (h : p ∈ sizeWrites size fx now) :
    (6 ≤ p.1 ∧ p.1 + p.2.length ≤ 16) ∨ (p.1 ∈ fx ∧ p.2.length = 2) := by
  rcases List.mem_cons.mp h with rfl | h
  · exact Or.inl ⟨le_rfl, (by decide : 6 + 4 ≤ 16)⟩
  · rcases List.mem_append.mp h with h | h
    · cases fx with
      | none => exact absurd h List.not_mem_nil
      | some x =>
          have hp : p = (x, enc16 (size / U32)) := List.mem_singleton.mp h
          rw [hp]
          exact Or.inr ⟨rfl, rfl⟩
    · refine Or.inl ?_
      simp only [List.mem_cons, List.not_mem_nil, or_false] at h
      rcases h with rfl | rfl | rfl
      · exact ⟨(by decide : 6 ≤ 10), (by decide : 10 + 2 ≤ 16)⟩
      · exact ⟨(by decide : 6 ≤ 12), (by decide : 12 + 2 ≤ 16)⟩
      · exact ⟨(by decide : 6 ≤ 14), (by decide : 14 + 2 ≤ 16)⟩

theorem sizeWrites_fit (hlen : 18 ≤ raw.length) (hfx : ∀ p ∈ fx, p + 2 ≤ raw.length) :
    ∀ p ∈ sizeWrites size fx now, p.1 + p.2.length ≤ raw.length := by
  intro p hp
  rcases mem_sizeWrites hp with ⟨-, hle⟩ | ⟨hmem, htwo⟩
  · omega
  · have hle := hfx p.1 hmem
    omega

theorem same_sizeWrites (hlen : 18 ≤ raw.length) (hfx : ∀ p ∈ fx, p + 2 ≤ raw.length)
    (hhead : hi ≤ 6 ∨ 16 ≤ lo) (htail : ∀ p ∈ fx, hi ≤ p ∨ p + 2 ≤ lo) :
    Same raw (spliceAll raw (sizeWrites size fx now)) lo hi := by
  refine same_spliceAll (sizeWrites_fit hlen hfx) fun p hp => ?_
  rcases mem_sizeWrites hp with ⟨hge, hle⟩ | ⟨hmem, htwo⟩
  · omega
  · have hor := htail p.1 hmem
    omega

/-- The lower half of the new size. -/
theorem fsize_sizeWrites (hlen : 18 ≤ raw.length) (hfx : ∀ p ∈ fx, p + 2 ≤ raw.length)
    (htail : ∀ p ∈ fx, 10 ≤ p) :
    be32 (spliceAll raw (sizeWrites size fx now)) 6 = size % 2 ^ 32 := by
  have htake := @take_spliceAll raw 6 (enc32 size) []
    ((fx.map fun p => (p, enc16 (size / U32))).toList ++
      [(10, enc16 now.day), (12, enc16 now.minute), (14, enc16 now.tick)])
    (sizeWrites_fit hlen hfx) fun p hp => by
      refine Or.inl ?_
      rcases List.mem_append.mp hp with hp | hp
      · cases fx with
        | none => exact absurd hp List.not_mem_nil
        | some x =>
            rw [List.mem_singleton.mp hp]
            exact htail x rfl
      · simp only [List.mem_cons, List.not_mem_nil, or_false] at hp
        rcases hp with rfl | rfl | rfl
        · exact (by decide : 6 + 4 ≤ 10)
        · exact (by decide : 6 + 4 ≤ 12)
        · exact (by decide : 6 + 4 ≤ 14)
  have hzero := be32_enc32 size []
  rw [List.append_nil] at hzero
  rw [← hzero]
  exact be32_eq_of_take (by rw [List.drop_zero]; exact htake)

/-- The upper half of the new size. -/
theorem fsizex_sizeWrites {x : ℕ} (hlen : 18 ≤ raw.length) (hx : x + 2 ≤ raw.length)
    (htail : 16 ≤ x) :
    be16 (spliceAll raw (sizeWrites size (some x) now)) x = size / U32 % 2 ^ 16 := by
  have hfit := @sizeWrites_fit raw size (some x) now hlen fun p hp => by
    injection hp with hp
    omega
  have htake := @take_spliceAll raw x (enc16 (size / U32)) [(6, enc32 size)]
    [(10, enc16 now.day), (12, enc16 now.minute), (14, enc16 now.tick)] hfit fun p hp => by
      refine Or.inr ?_
      simp only [List.mem_cons, List.not_mem_nil, or_false] at hp
      rcases hp with rfl | rfl | rfl
      · exact le_trans (by decide : 10 + 2 ≤ 16) htail
      · exact le_trans (by decide : 12 + 2 ≤ 16) htail
      · exact htail
  have hzero := be16_enc16 (size / U32) []
  rw [List.append_nil] at hzero
  rw [← hzero]
  exact be16_eq_of_take (by rw [List.drop_zero]; exact htake)

/-- The place of `fsizex` in an entry, if it has one. -/
def fsizexOf (raw : Bytes) (nlen : ℕ) : Option ℕ :=
  if HasFsizex raw nlen then some (fsizexAt raw nlen) else none

theorem mem_fsizexOf {nlen p : ℕ} (hfit : FieldsFit raw nlen) (h : p ∈ fsizexOf raw nlen) :
    p = fsizexAt raw nlen ∧ HasFsizex raw nlen ∧ p + 2 ≤ raw.length ∧
      18 + nlen + 1 + (raw.getD (18 + nlen) 0).toNat ≤ p := by
  unfold fsizexOf at h
  split at h
  · rename_i hx
    have hp : fsizexAt raw nlen = p := by injection h
    have hend := hfit hx.1
    rw [if_pos hx.2, hp] at hend
    have hstart := le_fieldStart raw nlen
    have hat : fieldStart raw nlen ≤ fsizexAt raw nlen := by
      unfold fsizexAt
      omega
    exact ⟨hp.symm, hx, hend, by omega⟩
  · cases h

/-- The patched entry, parsed. -/
theorem resized_ofRaw (hlen : 18 ≤ raw.length) {nlen : ℕ} (hnlen : nlen = (raw.getD 17 0).toNat)
    (hfit : FieldsFit raw nlen) (size : ℕ) (now : Datestamp) :
    let raw' := spliceAll raw (sizeWrites size (fsizexOf raw nlen) now)
    Resized (DirEntry.ofRaw raw) (DirEntry.ofRaw raw') ∧
      (DirEntry.ofRaw raw').fsize = size % 2 ^ 32 ∧
      (DirEntry.ofRaw raw').extra.fsizex =
        if HasFsizex raw nlen then size / U32 % 2 ^ 16 else 0 := by
  have hfx : ∀ p ∈ fsizexOf raw nlen, p + 2 ≤ raw.length :=
    fun p hp => (mem_fsizexOf hfit hp).2.2.1
  have hl : (spliceAll raw (sizeWrites size (fsizexOf raw nlen) now)).length = raw.length :=
    length_spliceAll (sizeWrites_fit hlen hfx)
  have hfsize := @fsize_sizeWrites raw size (fsizexOf raw nlen) now hlen hfx fun p hp => by
    have h := (mem_fsizexOf hfit hp).2.2.2
    omega
  have hhead : Same raw (spliceAll raw (sizeWrites size (fsizexOf raw nlen) now)) 0 6 :=
    same_sizeWrites hlen hfx (Or.inl le_rfl) fun p hp => by
      have h := (mem_fsizexOf hfit hp).2.2.2
      omega
  -- everything up to `fsizex`, or up to the end of an entry without it
  have hbody : ∀ hi, (∀ p ∈ fsizexOf raw nlen, hi ≤ p) →
      Same raw (spliceAll raw (sizeWrites size (fsizexOf raw nlen) now)) 16 hi :=
    fun hi h => same_sizeWrites hlen hfx (Or.inr le_rfl) fun p hp => Or.inl (h p hp)
  have hupper : HasFsizex raw nlen →
      be16 (spliceAll raw (sizeWrites size (fsizexOf raw nlen) now)) (fsizexAt raw nlen) =
        size / U32 % 2 ^ 16 := fun hx => by
    have hsome : fsizexOf raw nlen = some (fsizexAt raw nlen) := if_pos hx
    obtain ⟨-, -, hin, hge⟩ := mem_fsizexOf hfit hsome
    rw [hsome]
    exact fsizex_sizeWrites hlen hin (by omega)
  dsimp only
  generalize spliceAll raw (sizeWrites size (fsizexOf raw nlen) now) = raw' at *
  have hnlen' : (raw'.getD 17 0).toNat = nlen := by
    rw [hnlen, (hbody 18 fun p hp => by
      have h := (mem_fsizexOf hfit hp).2.2.2
      omega).getD (by decide) le_rfl]
  have hfar : Same raw raw' 16 (18 + nlen + 1 + (raw.getD (18 + nlen) 0).toNat) :=
    hbody _ fun p hp => (mem_fsizexOf hfit hp).2.2.2
  have hname : (raw'.drop 18).take nlen = (raw.drop 18).take nlen :=
    hfar 18 nlen (by decide) (by omega)
  have hclen : raw'.getD (18 + nlen) 0 = raw.getD (18 + nlen) 0 := hfar.getD (by omega) (by omega)
  have hcomment : (raw'.drop (18 + nlen + 1)).take (raw.getD (18 + nlen) 0).toNat =
      (raw.drop (18 + nlen + 1)).take (raw.getD (18 + nlen) 0).toNat :=
    hfar _ _ (by omega) le_rfl
  have hextra : DirEntry.parseExtrafields raw' nlen = { DirEntry.parseExtrafields raw nlen with
      fsizex := if HasFsizex raw nlen then size / U32 % 2 ^ 16 else 0 } := by
    by_cases hflags : HasFlags raw nlen
    · have hsame : Same raw raw' (18 + nlen) (fsizexAt raw nlen) := fun p n hp hn =>
        hbody (fsizexAt raw nlen) (fun q hq => (mem_fsizexOf hfit hq).1.ge) p n (by omega) hn
      rw [parseExtrafields_same hl hflags hfit hsame]
      by_cases hx : flagsOf raw nlen &&& 0x0040 ≠ 0
      · rw [if_pos hx, if_pos (show HasFsizex raw nlen from ⟨hflags, hx⟩), hupper ⟨hflags, hx⟩]
      · rw [if_neg hx, if_neg fun hcon : HasFsizex raw nlen => hx hcon.2]
    · have hflags' : ¬ HasFlags raw' nlen := by
        unfold HasFlags fieldStart
        rw [hl, hclen]
        exact hflags
      rw [parseExtrafields_of_not_hasFlags hflags, parseExtrafields_of_not_hasFlags hflags',
        if_neg fun hcon : HasFsizex raw nlen => hflags hcon.1]
  have hsize : raw'.getD 0 0 = raw.getD 0 0 := hhead.getD le_rfl (by decide)
  have htype : raw'.getD 1 0 = raw.getD 1 0 := hhead.getD (by decide) (by decide)
  have hanode : be32 raw' 2 = be32 raw 2 := hhead.be32 (by decide) (by decide)
  have hprot : raw'.getD 16 0 = raw.getD 16 0 := hfar.getD le_rfl (by omega)
  refine ⟨?_, hfsize, ?_⟩
  · unfold Resized DirEntry.ofRaw
    dsimp only
    rw [hnlen', ← hnlen, hname, hclen, hcomment, hextra, hsize, htype, hanode, hprot, hl]
  · unfold DirEntry.ofRaw
    dsimp only
    rw [hnlen', hextra]

end Patched

/-! ## The writer's walk over the extra fields -/

theorem skip_eq {stop flags : ℕ} (fields : List (ℕ × ℕ)) : ∀ fp : ℕ,
    fp + widths flags fields ≤ stop → Writer.fsizexPos.skip stop flags fields fp =
      if flags &&& 0x0040 ≠ 0 ∧ fp + widths flags fields + 2 ≤ stop
      then some (fp + widths flags fields) else none := by
  induction fields with
  | nil => exact fun _ _ => rfl
  | cons field rest ih =>
      intro fp h
      obtain ⟨flag, width⟩ := field
      rw [widths] at h ⊢
      rw [Writer.fsizexPos.skip]
      by_cases hflag : flags &&& flag ≠ 0
      · rw [if_pos hflag] at h ⊢
        rw [if_pos hflag, if_neg (by omega), ih (fp + width) (by omega), Nat.add_assoc fp]
      · rw [if_neg hflag] at h ⊢
        rw [if_neg hflag, ih fp (by omega), Nat.zero_add]

section Writer

variable {data : Bytes} {pos esize nlen : ℕ}

theorem getD_entry {i : ℕ} (h : i < esize) :
    ((data.drop pos).take esize).getD i 0 = data.getD (pos + i) 0 := by
  rw [List.getD_eq_getElem?_getD, List.getD_eq_getElem?_getD, List.getElem?_take_of_lt h,
    List.getElem?_drop]

theorem be16_entry {i : ℕ} (h : i + 2 ≤ esize) :
    be16 ((data.drop pos).take esize) i = be16 data (pos + i) := by
  apply be16_eq_of_take
  rw [List.drop_take, List.drop_drop, List.take_take, Nat.min_eq_left (by omega)]

/-- At an even position the writer finds `fsizex` where the parser does. -/
theorem fsizexPos_eq (heven : pos % 2 = 0) (hin : pos + esize ≤ data.length)
    (hfit : FieldsFit ((data.drop pos).take esize) nlen) :
    Writer.fsizexPos data pos esize nlen =
      .ok ((fsizexOf ((data.drop pos).take esize) nlen).map (pos + ·)) := by
  have hlen : ((data.drop pos).take esize).length = esize := by
    rw [List.length_take, List.length_drop]
    omega
  have hbyte := @getD_entry data pos esize (18 + nlen)
  have hword := @be16_entry data pos esize (fieldStart ((data.drop pos).take esize) nlen)
  have hstart : ∀ raw : Bytes, fieldStart raw nlen =
      if (18 + nlen + 1 + (raw.getD (18 + nlen) 0).toNat) % 2 ≠ 0
      then 18 + nlen + 1 + (raw.getD (18 + nlen) 0).toNat + 1
      else 18 + nlen + 1 + (raw.getD (18 + nlen) 0).toNat := fun _ => rfl
  generalize (data.drop pos).take esize = raw at *
  unfold Writer.fsizexPos fsizexOf
  dsimp only
  by_cases hname : 18 + nlen < esize
  · have hclen := hbyte hname
    rw [← Nat.add_assoc] at hclen
    rw [if_pos (by omega), readU8_ok (by omega), ok_bind, ← hclen]
    have hfp : (if (pos + 18 + nlen + 1 + (raw.getD (18 + nlen) 0).toNat) % 2 ≠ 0
        then pos + 18 + nlen + 1 + (raw.getD (18 + nlen) 0).toNat + 1
        else pos + 18 + nlen + 1 + (raw.getD (18 + nlen) 0).toNat) = pos + fieldStart raw nlen := by
      rw [hstart]
      split
      · rw [if_pos (by omega)]
        omega
      · rw [if_neg (by omega)]
        omega
    rw [hfp]
    by_cases hflags : fieldStart raw nlen + 2 ≤ esize
    · have hhas : HasFlags raw nlen := ⟨by omega, by omega⟩
      have hend := hfit hhas
      have hat : fsizexAt raw nlen =
          fieldStart raw nlen + 2 + widths (flagsOf raw nlen) lowFields := rfl
      rw [if_pos (by omega), readU16_ok (by omega), ok_bind, ← hword hflags]
      have hskip := @skip_eq (pos + esize) (flagsOf raw nlen) lowFields
        (pos + fieldStart raw nlen + 2) (by split at hend <;> omega)
      have hsum : pos + fieldStart raw nlen + 2 + widths (flagsOf raw nlen) lowFields =
          pos + fsizexAt raw nlen := by omega
      rw [hsum] at hskip
      refine (congrArg Except.ok hskip).trans (congrArg Except.ok ?_)
      by_cases hx : flagsOf raw nlen &&& 0x0040 ≠ 0
      · rw [if_pos hx] at hend
        rw [if_pos ⟨hx, by omega⟩, if_pos (show HasFsizex raw nlen from ⟨hhas, hx⟩)]
        rfl
      · rw [if_neg fun hcon => hx hcon.1, if_neg fun hcon : HasFsizex raw nlen => hx hcon.2]
        rfl
    · rw [if_neg (by omega), if_neg fun hcon : HasFsizex raw nlen => hflags (by
        have h := hcon.1.2
        omega)]
      rfl
  · rw [if_neg (by omega), if_neg fun hcon : HasFsizex raw nlen => hname (by
      have h := hcon.1.1
      omega)]
    rfl

end Writer

/-! ## The patched block -/

/-- The writes of `update_dir_entry_size` into the block: the entry's, and the block's stamp. -/
def blockWrites (pos size : ℕ) (fx : Option ℕ) (now : Datestamp) (ds : ℕ) : List (ℕ × Bytes) :=
  (sizeWrites size fx now).map (fun p => (pos + p.1, p.2)) ++ [(4, enc32 ds)]

theorem blockWrites_none (pos size : ℕ) (now : Datestamp) (ds : ℕ) :
    blockWrites pos size none now ds = (pos + 6, enc32 size) ::
      [(pos + 10, enc16 now.day), (pos + 12, enc16 now.minute), (pos + 14, enc16 now.tick),
        (4, enc32 ds)] := rfl

theorem blockWrites_some (pos size x : ℕ) (now : Datestamp) (ds : ℕ) :
    blockWrites pos size (some x) now ds =
      (pos + 6, enc32 size) :: (pos + x, enc16 (size / U32)) ::
        [(pos + 10, enc16 now.day), (pos + 12, enc16 now.minute), (pos + 14, enc16 now.tick),
          (4, enc32 ds)] := rfl

/-- A write into an entry, seen from the block. -/
theorem take_drop_splice_shift {data x : Bytes} {pos m o : ℕ} (ho : o + x.length ≤ m)
    (hin : pos + m ≤ data.length) :
    ((splice data (pos + o) x).drop pos).take m = splice ((data.drop pos).take m) o x := by
  have hsplit : data = data.take pos ++ (data.drop pos).take m ++ data.drop (pos + m) := by
    rw [List.append_assoc, ← List.drop_drop, List.take_append_drop, List.take_append_drop]
  have hpos : (data.take pos).length = pos := by rw [List.length_take]; omega
  have hraw : ((data.drop pos).take m).length = m := by
    rw [List.length_take, List.length_drop]
    omega
  have hmiddle := @splice_middle (data.take pos) ((data.drop pos).take m) (data.drop (pos + m)) x o
    (by rw [hraw]; exact ho)
  rw [← hsplit, hpos] at hmiddle
  have hlen : (splice ((data.drop pos).take m) o x).length = m := by
    rw [length_splice (by rw [hraw]; exact ho), hraw]
  rw [hmiddle, List.append_assoc, List.drop_left' hpos, List.take_left' hlen]

theorem take_drop_spliceAll_shift {pos m : ℕ} (writes : List (ℕ × Bytes)) : ∀ {data : Bytes},
    (∀ p ∈ writes, p.1 + p.2.length ≤ m) → pos + m ≤ data.length →
    ((spliceAll data (writes.map fun p => (pos + p.1, p.2))).drop pos).take m =
      spliceAll ((data.drop pos).take m) writes := by
  induction writes with
  | nil => exact fun _ _ => rfl
  | cons p rest ih =>
      intro data h hin
      have hp := h p List.mem_cons_self
      have hlen : (splice data (pos + p.1) p.2).length = data.length := length_splice (by omega)
      have hrest := @ih (splice data (pos + p.1) p.2) (fun q hq => h q (List.mem_cons_of_mem p hq))
        (by omega)
      rw [take_drop_splice_shift hp hin] at hrest
      exact hrest

section Block

variable {data : Bytes} {pos esize nlen : ℕ}

theorem flags_same {raw raw' : Bytes} (hlen : raw'.length = raw.length)
    (h : ∀ hi, Same raw raw' 16 hi) (nlen : ℕ) :
    fsizexOf raw' nlen = fsizexOf raw nlen ∧ (FieldsFit raw' nlen ↔ FieldsFit raw nlen) := by
  have hclen : raw'.getD (18 + nlen) 0 = raw.getD (18 + nlen) 0 :=
    (h (18 + nlen + 1)).getD (by omega) le_rfl
  have hstart : fieldStart raw' nlen = fieldStart raw nlen := by
    unfold fieldStart
    rw [hclen]
  have hflags : flagsOf raw' nlen = flagsOf raw nlen := by
    have hge := le_fieldStart raw nlen
    unfold flagsOf
    rw [hstart]
    exact (h (fieldStart raw nlen + 2)).be16 (by omega) le_rfl
  have hhas : HasFlags raw' nlen ↔ HasFlags raw nlen := by
    unfold HasFlags
    rw [hstart, hlen]
  have hx : HasFsizex raw' nlen ↔ HasFsizex raw nlen := by
    unfold HasFsizex
    rw [hhas, hflags]
  have hat : fsizexAt raw' nlen = fsizexAt raw nlen := by
    unfold fsizexAt
    rw [hstart, hflags]
  constructor
  · unfold fsizexOf
    by_cases h : HasFsizex raw nlen
    · rw [if_pos h, if_pos (hx.mpr h), hat]
    · rw [if_neg h, if_neg fun h' => h (hx.mp h')]
  · unfold FieldsFit
    rw [hhas, hat, hflags, hlen]

/-- What the parser asks of an entry it accepts. -/
theorem of_parse {e : DirEntry} {next : ℕ} (h : DirEntry.parse data pos = some (e, next)) :
    pos + sizeAt data pos ≤ data.length ∧ 18 ≤ sizeAt data pos ∧
      e = DirEntry.ofRaw ((data.drop pos).take (sizeAt data pos)) ∧ next = pos + sizeAt data pos := by
  unfold DirEntry.parse at h
  split at h
  · cases h
  · dsimp only at h
    split at h
    · cases h
    · split at h
      · cases h
      · rename_i hbad
        injection h with h
        injection h with he hnext
        have hsize : (data.getD pos 0).toNat = sizeAt data pos := rfl
        rw [hsize] at hbad he hnext
        exact ⟨by omega, by omega, he.symm, hnext.symm⟩

theorem parse_of {m : ℕ} (hsize : sizeAt data pos = m) (hin : pos + m ≤ data.length)
    (hm : 18 ≤ m) :
    DirEntry.parse data pos = some (DirEntry.ofRaw ((data.drop pos).take m), pos + m) := by
  have hbyte : (data.getD pos 0).toNat = m := hsize
  unfold DirEntry.parse
  dsimp only
  rw [if_neg (by omega), hbyte, if_neg (by omega), if_neg (by omega)]

variable {size ds : ℕ} {fx : Option ℕ} {now : Datestamp}

theorem blockWrites_fit (hin : pos + esize ≤ data.length) (hpos : 8 ≤ data.length)
    (h18 : 18 ≤ esize) (hfx : ∀ p ∈ fx, p + 2 ≤ esize) :
    ∀ p ∈ blockWrites pos size fx now ds, p.1 + p.2.length ≤ data.length := by
  intro p hp
  rcases List.mem_append.mp hp with hp | hp
  · obtain ⟨q, hq, rfl⟩ := List.mem_map.mp hp
    rcases mem_sizeWrites hq with ⟨-, hle⟩ | ⟨hmem, htwo⟩
    · dsimp only
      omega
    · have hle := hfx q.1 hmem
      dsimp only
      omega
  · rw [List.mem_singleton.mp hp]
    exact hpos

/-- Outside of the entry only the stamp of the block changes. -/
theorem same_blockWrites {lo hi : ℕ} (hin : pos + esize ≤ data.length) (hpos : 8 ≤ data.length)
    (h18 : 18 ≤ esize) (hfx : ∀ p ∈ fx, p + 2 ≤ esize) (hentry : hi ≤ pos ∨ pos + esize ≤ lo)
    (hstamp : hi ≤ 4 ∨ 8 ≤ lo) :
    Same data (spliceAll data (blockWrites pos size fx now ds)) lo hi := by
  refine same_spliceAll (blockWrites_fit hin hpos h18 hfx) fun p hp => ?_
  rcases List.mem_append.mp hp with hp | hp
  · obtain ⟨q, hq, rfl⟩ := List.mem_map.mp hp
    rcases mem_sizeWrites hq with ⟨-, hle⟩ | ⟨hmem, htwo⟩
    · dsimp only
      omega
    · have hle := hfx q.1 hmem
      dsimp only
      omega
  · rw [List.mem_singleton.mp hp]
    exact hstamp

/-- The entry itself. -/
theorem entry_blockWrites (hin : pos + esize ≤ data.length) (hpos : 8 ≤ pos) (h18 : 18 ≤ esize)
    (hfx : ∀ p ∈ fx, p + 2 ≤ esize) :
    ((spliceAll data (blockWrites pos size fx now ds)).drop pos).take esize =
      spliceAll ((data.drop pos).take esize) (sizeWrites size fx now) := by
  have hfit : ∀ p ∈ sizeWrites size fx now, p.1 + p.2.length ≤ esize := by
    intro p hp
    rcases mem_sizeWrites hp with ⟨-, hle⟩ | ⟨hmem, htwo⟩
    · omega
    · have hle := hfx p.1 hmem
      omega
  rw [← take_drop_spliceAll_shift (sizeWrites size fx now) hfit hin]
  have hlen : (spliceAll data ((sizeWrites size fx now).map fun p => (pos + p.1, p.2))).length =
      data.length := by
    refine length_spliceAll fun p hp => ?_
    obtain ⟨q, hq, rfl⟩ := List.mem_map.mp hp
    have hle := hfit q hq
    dsimp only
    omega
  have hsplit : spliceAll data (blockWrites pos size fx now ds) =
      splice (spliceAll data ((sizeWrites size fx now).map fun p => (pos + p.1, p.2))) 4 (enc32 ds) := by
    rw [blockWrites, spliceAll, List.foldl_append]
    rfl
  rw [hsplit]
  exact take_drop_splice (by rw [hlen, length_enc32]; omega) (Or.inr (by rw [length_enc32]; omega))

/-! ## The other entries of the block -/

variable {data' : Bytes} {name : Name} {lo hi : ℕ}

theorem Same.sizeAt {p : ℕ} (h : Same data data' lo hi) (hlo : lo ≤ p) (hhi : p + 1 ≤ hi) :
    sizeAt data' p = sizeAt data p := congrArg UInt8.toNat (h.getD hlo hhi)

/-- An entry that lies where nothing was written. -/
theorem Same.parse {p : ℕ} (h : Same data data' lo hi) (hlen : data'.length = data.length)
    (hlo : lo ≤ p) (hhi : p + 1 ≤ hi)
    (hend : p + Pfs3.sizeAt data p ≤ data.length → p + Pfs3.sizeAt data p ≤ hi) :
    DirEntry.parse data' p = DirEntry.parse data p := by
  have hbyte : (data'.getD p 0).toNat = (data.getD p 0).toNat := h.sizeAt hlo hhi
  have hsize : (data.getD p 0).toNat = Pfs3.sizeAt data p := rfl
  unfold DirEntry.parse
  dsimp only
  rw [hlen, hbyte, hsize]
  by_cases hin : data.length < p + Pfs3.sizeAt data p
  · rw [if_pos (Or.inl hin), if_pos (Or.inl hin)]
  · rw [h p (Pfs3.sizeAt data p) hlo (hend (by omega))]

theorem placedEntries_same (h : ∀ hi, Same data data' lo hi) (hlen : data'.length = data.length)
    (k : ℕ) : ∀ p : ℕ, lo ≤ p → placedEntries data' k p = placedEntries data k p := by
  induction k with
  | zero => exact fun _ _ => rfl
  | succ k ih =>
      intro p hlo
      have hparse := (h (p + 1 + sizeAt data p)).parse hlen hlo (by omega) (by omega)
      rw [placedEntries, placedEntries, hlen, hparse]
      split
      · rfl
      · cases hentry : DirEntry.parse data p with
        | none => rfl
        | some q =>
            obtain ⟨entry, next⟩ := q
            have hnext := next_of_parse hentry
            exact congrArg _ (ih next (by omega))

/-- What a match of the writer's walk says. -/
theorem of_findInBlock {rbs : ℕ} (n : ℕ) : ∀ {p : ℕ},
    Writer.findInBlock rbs data name n p = .ok (some pos) →
      p < data.length ∧ sizeAt data p ≠ 0 ∧ p + 18 ≤ data.length ∧
        (p = pos ∨ ∃ m, n = m + 1 ∧
          Writer.findInBlock rbs data name m (p + sizeAt data p) = .ok (some pos)) := by
  intro p h
  cases n with
  | zero => cases h
  | succ n =>
      rw [Writer.findInBlock] at h
      split at h
      · cases h
      · by_cases hp : p + 18 ≤ data.length
        · rw [readU8_ok (by omega), ok_bind] at h
          split at h
          · cases h
          · rename_i hsize
            rw [readU8_ok (by omega), ok_bind] at h
            split at h
            · cases h
            · split at h
              · injection h with h
                injection h with h
                exact ⟨by omega, hsize, hp, Or.inl h⟩
              · exact ⟨by omega, hsize, hp, Or.inr ⟨n, rfl, h⟩⟩
        · unfold readU8 at h
          split at h
          · rw [ok_bind] at h
            split at h
            · cases h
            · rw [if_neg (by omega)] at h
              cases h
          · cases h

theorem le_of_findInBlock {rbs : ℕ} (n : ℕ) : ∀ {p : ℕ},
    Writer.findInBlock rbs data name n p = .ok (some pos) → p ≤ pos := by
  induction n with
  | zero =>
      intro p h
      cases h
  | succ n ih =>
      intro p h
      obtain ⟨-, -, -, hp | ⟨m, hm, hrest⟩⟩ := of_findInBlock _ h
      · exact hp.le
      · obtain rfl : n = m := by omega
        have hle := ih hrest
        omega

/-- The listed entries after a write into the entry that the writer has found. -/
theorem placedEntries_patch {rbs next : ℕ} {e' : DirEntry} (hlen : data'.length = data.length)
    (hbefore : Same data data' lo pos) (hafter : ∀ hi, Same data data' next hi)
    (hparse : DirEntry.parse data pos ≠ none)
    (hparse' : DirEntry.parse data' pos = some (e', next)) (hnext : next = pos + sizeAt data pos)
    (n : ℕ) : ∀ k p : ℕ, lo ≤ p → Writer.findInBlock rbs data name n p = .ok (some pos) →
      placedEntries data' k p =
        (placedEntries data k p).map fun q => if q.1 = pos then (pos, e') else q := by
  induction n with
  | zero =>
      intro k p _ h
      cases h
  | succ n ih =>
      intro k p hlo h
      cases k with
      | zero => rfl
      | succ k =>
          obtain ⟨hin, hsize, -, hp | ⟨m, hm, hrest⟩⟩ := of_findInBlock _ h
          · subst hp
            rw [placedEntries, placedEntries, hlen, if_neg (by omega), if_neg (by omega), hparse']
            cases hentry : DirEntry.parse data p with
            | none => exact absurd hentry hparse
            | some q =>
                obtain ⟨entry, after⟩ := q
                have hq := next_of_parse hentry
                obtain rfl : next = after := by omega
                dsimp only
                rw [List.map_cons, if_pos rfl, placedEntries_same hafter hlen k next le_rfl]
                have hid : ∀ q ∈ placedEntries data k next,
                    (if q.1 = p then (p, e') else q) = q := fun q hmem => by
                  have hge := le_of_mem_placedEntries _ _ q hmem
                  rw [if_neg (by omega)]
                rw [List.map_congr_left hid, List.map_id']
          · obtain rfl : n = m := by omega
            have hle := le_of_findInBlock _ hrest
            rw [placedEntries, placedEntries, hlen, if_neg (by omega), if_neg (by omega),
              hbefore.parse hlen hlo (by omega) fun _ => hle]
            cases hentry : DirEntry.parse data p with
            | none => rfl
            | some q =>
                obtain ⟨entry, after⟩ := q
                have hq := next_of_parse hentry
                dsimp only
                rw [hq, List.map_cons, if_neg (by omega), ih k _ (by omega) hrest]

end Block

/-! ## The call -/

namespace Writer

/-- The entries listed in directory blocks, each with its block and position. -/
def listed (w : Writer) (blks : List ℕ) : List (ℕ × ℕ × DirEntry) :=
  blks.flatMap fun b => (placedInBlock ((w.blockOf b).toOption.getD [])).map fun p => (b, p)

end Writer

section Run

variable {w w₁ w' : Writer} {name : Name} {blk pos : ℕ} {data : Bytes}

theorem of_findDirEntryLoop (blks : List ℕ)
    (h : Writer.findDirEntryLoop name blks w = .ok (blk, data, pos) w₁) :
    w₁ = w ∧ w.blockOf blk = .ok data ∧ be16 data 0 = DBLKID ∧
      Writer.findInBlock w.resblocksize data name w.resblocksize DIR_BLOCK_HEADER_SIZE =
        .ok (some pos) := by
  induction blks with
  | nil => cases h
  | cons b rest ih =>
      rw [Writer.findDirEntryLoop] at h
      obtain ⟨d, w₂, hread, h⟩ := of_bind_eq_ok h
      rw [Writer.readReservedRaw_eq] at hread
      split at hread
      · rename_i d' hblock
        cases hread
        obtain ⟨id, w₃, hid, h⟩ := of_bind_eq_ok h
        unfold readU16 at hid
        split at hid
        · cases hid
          split at h
          · exact ih h
          · rename_i hdir
            rw [bind_of_ok (rfl : (get : WriterM Writer) _ = .ok _ _)] at h
            cases hfind : Writer.findInBlock w.resblocksize d name w.resblocksize
                DIR_BLOCK_HEADER_SIZE with
            | error f =>
                rw [hfind] at h
                cases h
            | ok r =>
                rw [hfind] at h
                cases r with
                | none => exact ih h
                | some p =>
                    cases h
                    exact ⟨rfl, hblock, not_not.mp hdir, hfind⟩
        · cases hid
      · cases hread

/-- The entry that `find_dir_entry` finds. -/
theorem of_findDirEntry {dirAnode : ℕ}
    (h : Writer.findDirEntry dirAnode name w = .ok (blk, data, pos) w₁) :
    w₁ = Writer.setVol { w.vol with cache := w₁.vol.cache } w ∧ w.blockOf blk = .ok data ∧
      be16 data 0 = DBLKID ∧
      Writer.findInBlock w.resblocksize data name w.resblocksize DIR_BLOCK_HEADER_SIZE =
        .ok (some pos) := by
  obtain ⟨chain, w₂, hchain, h⟩ := of_bind_eq_ok h
  obtain ⟨c, -, rfl⟩ := of_onVol_onCache hchain
  obtain ⟨rfl, hrest⟩ := of_findDirEntryLoop _ h
  exact ⟨rfl, hrest⟩

/-- The bytes of the entry at `pos`. -/
def rawAt (data : Bytes) (pos : ℕ) : Bytes := (data.drop pos).take (sizeAt data pos)

/-- The end of the call: the date of the entry, and the stamp of the block. -/
theorem of_stampEntry {d : Bytes} (hin : pos + 16 ≤ d.length)
    (h : (do
      let now ← Writer.currentAmigaDatestamp
      let data ← putU16 d (pos + 10) now.day
      let data ← putU16 data (pos + 12) now.minute
      let data ← putU16 data (pos + 14) now.tick
      let ds ← Writer.nextDatestamp
      let data ← putU32 data 4 ds
      Writer.writeReserved blk data : WriterM Unit) w = .ok () w') :
    ∃ (now : Datestamp) (ds : ℕ), w'.blockOf = Function.update w.blockOf blk (.ok (spliceAll d
      [(pos + 10, enc16 now.day), (pos + 12, enc16 now.minute), (pos + 14, enc16 now.tick),
        (4, enc32 ds)])) := by
  have h₁ : ∀ x : ℕ, (splice d (pos + 10) (enc16 x)).length = d.length :=
    fun x => length_splice (by rw [length_enc16]; omega)
  have h₂ : ∀ x y : ℕ,
      (splice (splice d (pos + 10) (enc16 x)) (pos + 12) (enc16 y)).length = d.length :=
    fun x y => (length_splice (by rw [length_enc16, h₁]; omega)).trans (h₁ x)
  have h₃ : ∀ x y z : ℕ, (splice (splice (splice d (pos + 10) (enc16 x)) (pos + 12) (enc16 y))
      (pos + 14) (enc16 z)).length = d.length :=
    fun x y z => (length_splice (by rw [length_enc16, h₂]; omega)).trans (h₂ x y)
  obtain ⟨now, w₂, hnow, h⟩ := of_bind_eq_ok h
  cases hnow
  rw [putU16_ok (by omega), lift_ok_bind, putU16_ok (by rw [h₁]; omega), lift_ok_bind,
    putU16_ok (by rw [h₂]; omega), lift_ok_bind] at h
  obtain ⟨ds, w₃, hds, h⟩ := of_bind_eq_ok h
  rw [putU32_ok (by rw [h₃]; omega), lift_ok_bind] at h
  obtain ⟨w₄, hwrite, hview⟩ := @Writer.blockOf_writeReserved blk
    (splice (splice (splice (splice d (pos + 10) (enc16 (w.clock w.asked).day)) (pos + 12)
      (enc16 (w.clock w.asked).minute)) (pos + 14) (enc16 (w.clock w.asked).tick)) 4 (enc32 ds)) w₃
  rw [h] at hwrite
  cases hwrite
  refine ⟨w.clock w.asked, ds, hview.trans ?_⟩
  have hsame : w₃.blockOf = w.blockOf := by
    rw [Writer.nextDatestamp, bind_of_ok (rfl : (get : WriterM Writer) _ = .ok _ _)] at hds
    unfold addU32 at hds
    split at hds
    · cases hds
      rfl
    · cases hds
  rw [hsame]
  rfl

theorem length_rawAt (hin : pos + sizeAt data pos ≤ data.length) :
    (rawAt data pos).length = sizeAt data pos := by
  rw [rawAt, List.length_take, List.length_drop]
  omega

/-- The place of `fsizex`, looked for once the lower half of the size is written. -/
theorem fsizexPos_patched {n : ℕ} (hin : pos + sizeAt data pos ≤ data.length)
    (h18 : 18 ≤ sizeAt data pos) (heven : pos % 2 = 0)
    (hfit : FieldsFit (rawAt data pos) (nlenAt data pos)) :
    Writer.fsizexPos (splice data (pos + 6) (enc32 n)) pos (sizeAt data pos) (nlenAt data pos) =
      .ok ((fsizexOf (rawAt data pos) (nlenAt data pos)).map (pos + ·)) := by
  have hraw := length_rawAt hin
  have hlen : (splice data (pos + 6) (enc32 n)).length = data.length :=
    length_splice (by rw [length_enc32]; omega)
  have hraw' : ((splice data (pos + 6) (enc32 n)).drop pos).take (sizeAt data pos) =
      splice (rawAt data pos) 6 (enc32 n) := take_drop_splice_shift (by rw [length_enc32]; omega) hin
  have hsame : ∀ hi, Same (rawAt data pos) (splice (rawAt data pos) 6 (enc32 n)) 16 hi := fun hi =>
    same_splice (by rw [length_enc32]; omega) (Or.inr (by rw [length_enc32]; decide))
  obtain ⟨hfx, hfit'⟩ := flags_same (length_splice (by rw [length_enc32]; omega)) hsame
    (nlenAt data pos)
  have hfound := @fsizexPos_eq (splice data (pos + 6) (enc32 n)) pos (sizeAt data pos)
    (nlenAt data pos) heven (by omega) (by rw [hraw']; exact hfit'.mpr hfit)
  rw [hraw', hfx] at hfound
  exact hfound

/-- The call writes one block: what was found, with the writes of the entry and the stamp. -/
theorem of_updateDirEntrySize {dirAnode n : ℕ} {e : DirEntry} {next : ℕ}
    (hfind : Writer.findDirEntry dirAnode name w = .ok (blk, data, pos) w₁)
    (hparse : DirEntry.parse data pos = some (e, next)) (heven : pos % 2 = 0)
    (hfit : FieldsFit (rawAt data pos) (nlenAt data pos))
    (hrun : Writer.updateDirEntrySize dirAnode name n w = .ok () w') :
    ∃ now ds, w'.blockOf = Function.update w.blockOf blk (.ok (spliceAll data
      (blockWrites pos n (fsizexOf (rawAt data pos) (nlenAt data pos)) now ds))) := by
  obtain ⟨hin, h18, -, -⟩ := of_parse hparse
  have hview : w₁.blockOf = w.blockOf := by
    rw [(of_findDirEntry hfind).1]
    rfl
  have hraw := length_rawAt hin
  have hfound := @fsizexPos_patched pos data n hin h18 heven hfit
  have hplace : ∀ x ∈ fsizexOf (rawAt data pos) (nlenAt data pos), x + 2 ≤ sizeAt data pos :=
    fun x hx => hraw ▸ (mem_fsizexOf hfit hx).2.2.1
  have hlen : (splice data (pos + 6) (enc32 n)).length = data.length :=
    length_splice (by rw [length_enc32]; omega)
  generalize fsizexOf (rawAt data pos) (nlenAt data pos) = fx at *
  unfold Writer.updateDirEntrySize at hrun
  rw [bind_of_ok hfind] at hrun
  dsimp only at hrun
  rw [readU8_ok (by omega), lift_ok_bind, readU8_ok (by omega), lift_ok_bind, putU32_ok (by omega),
    lift_ok_bind, show (data.getD pos 0).toNat = sizeAt data pos from rfl,
    show (data.getD (pos + 17) 0).toNat = nlenAt data pos from rfl, hfound, lift_ok_bind] at hrun
  rw [← hview]
  cases fx with
  | none =>
      obtain ⟨now, ds, hafter⟩ := of_stampEntry (by omega) hrun
      refine ⟨now, ds, ?_⟩
      rw [blockWrites_none, spliceAll_cons]
      exact hafter
  | some x =>
      have hx := hplace x rfl
      have hlen' : (splice (splice data (pos + 6) (enc32 n)) (pos + x) (enc16 (n / U32))).length =
          data.length := (length_splice (by rw [length_enc16, hlen]; omega)).trans hlen
      dsimp only [Option.map_some] at hrun
      rw [putU16_ok (by omega), lift_ok_bind] at hrun
      obtain ⟨now, ds, hafter⟩ := of_stampEntry (by omega) hrun
      refine ⟨now, ds, ?_⟩
      rw [blockWrites_some, spliceAll_cons, spliceAll_cons]
      exact hafter

/-- The entry in the patched block. -/
theorem parse_blockWrites {n next ds : ℕ} {now : Datestamp} {e : DirEntry}
    (hparse : DirEntry.parse data pos = some (e, next)) (hpos : 20 ≤ pos)
    (hfit : FieldsFit (rawAt data pos) (nlenAt data pos)) :
    let data' := spliceAll data
      (blockWrites pos n (fsizexOf (rawAt data pos) (nlenAt data pos)) now ds)
    ∃ e', DirEntry.parse data' pos = some (e', next) ∧ Resized e e' ∧ e'.fsize = n % 2 ^ 32 ∧
      e'.extra.fsizex =
        if HasFsizex (rawAt data pos) (nlenAt data pos) then n / U32 % 2 ^ 16 else 0 := by
  obtain ⟨hin, h18, he, hnext⟩ := of_parse hparse
  have hraw := length_rawAt hin
  have hname : nlenAt data pos = ((rawAt data pos).getD 17 0).toNat :=
    congrArg UInt8.toNat (getD_entry (by omega)).symm
  have hplace : ∀ x ∈ fsizexOf (rawAt data pos) (nlenAt data pos), x + 2 ≤ sizeAt data pos :=
    fun x hx => hraw ▸ (mem_fsizexOf hfit hx).2.2.1
  have hentry := @entry_blockWrites data pos (sizeAt data pos) n ds _ now hin (by omega) h18 hplace
  obtain ⟨hresized, hfsize, hfsizex⟩ :=
    @resized_ofRaw (rawAt data pos) (by omega) _ hname hfit n now
  have hlen : (spliceAll data (blockWrites pos n (fsizexOf (rawAt data pos) (nlenAt data pos))
      now ds)).length = data.length :=
    length_spliceAll (blockWrites_fit hin (by omega) h18 hplace)
  have hhead : Same (rawAt data pos) (spliceAll (rawAt data pos) (sizeWrites n
      (fsizexOf (rawAt data pos) (nlenAt data pos)) now)) 0 6 :=
    same_sizeWrites (by omega) (fun x hx => by rw [hraw]; exact hplace x hx) (Or.inl le_rfl)
      fun x hx => by
        have h := (mem_fsizexOf hfit hx).2.2.2
        omega
  dsimp only at hresized hfsize hfsizex ⊢
  generalize spliceAll data (blockWrites pos n _ now ds) = data' at *
  have hsize : sizeAt data' pos = sizeAt data pos := by
    have hbyte := hhead.getD le_rfl (by decide)
    rw [show spliceAll (rawAt data pos) _ = _ from hentry.symm, getD_entry (by omega),
      rawAt, getD_entry (by omega)] at hbyte
    exact congrArg UInt8.toNat hbyte
  have hparse' := parse_of hsize (by omega) h18
  rw [hentry, ← hnext] at hparse'
  rw [he]
  exact ⟨_, hparse', hresized, hfsize, hfsizex⟩

/-- The listed entries after a write into one entry of one block. -/
theorem listed_patch {data' : Bytes} {next : ℕ} {e e' : DirEntry}
    (hview : w'.blockOf = Function.update w.blockOf blk (.ok data')) (hblk : w.blockOf blk = .ok data)
    (hlen : data'.length = data.length) (hid : Same data data' 0 2) (hbefore : Same data data' 20 pos)
    (hafter : ∀ hi, Same data data' next hi) (hparse : DirEntry.parse data pos = some (e, next))
    (hparse' : DirEntry.parse data' pos = some (e', next)) {rbs k : ℕ}
    (hwalk : Writer.findInBlock rbs data name k DIR_BLOCK_HEADER_SIZE = .ok (some pos))
    (blks : List ℕ) :
    w'.listed blks = (w.listed blks).map fun q =>
      if q.1 = blk ∧ q.2.1 = pos then (blk, pos, e') else q := by
  have hblock : placedInBlock data' =
      (placedInBlock data).map fun q => if q.1 = pos then (pos, e') else q := by
    have hnext := next_of_parse hparse
    unfold placedInBlock
    rw [hlen, hid.be16 le_rfl le_rfl]
    split
    · rfl
    · split
      · rfl
      · exact placedEntries_patch hlen hbefore hafter (by rw [hparse]; exact Option.some_ne_none _)
          hparse' hnext _ _ _ le_rfl hwalk
  unfold Writer.listed
  rw [List.map_flatMap, hview]
  refine List.flatMap_congr fun b _ => ?_
  rw [List.map_map]
  by_cases hb : b = blk
  · subst hb
    rw [Function.update_self, hblk]
    dsimp only [Except.toOption, Option.getD_some]
    rw [hblock, List.map_map]
    refine List.map_congr_left fun q _ => ?_
    dsimp only [Function.comp]
    by_cases hq : q.1 = pos
    · rw [if_pos hq, if_pos ⟨rfl, hq⟩]
    · rw [if_neg hq, if_neg fun hcon => hq hcon.2]
  · rw [Function.update_of_ne hb]
    refine List.map_congr_left fun q _ => ?_
    dsimp only [Function.comp]
    rw [if_neg fun hcon => hb hcon.1]

/-- The call has put an entry of size `n` in the place of `e`, equal to it but for size and date,
and has changed no other entry of the directory. -/
def ResizedTo (n : ℕ) (w w' : Writer) (blk pos next : ℕ) (e : DirEntry) : Prop :=
  ∃ data' e', w'.blockOf blk = .ok data' ∧ DirEntry.parse data' pos = some (e', next) ∧
    e'.fileSize = n ∧ Resized e e' ∧
    ∀ blks, w'.listed blks = (w.listed blks).map fun q =>
      if q.1 = blk ∧ q.2.1 = pos then (blk, pos, e') else q

/-- The new size is kept as a whole if and only if it fits the fixed field, or the entry has the
field for its upper half. -/
theorem updateDirEntrySize_iff {dirAnode n next : ℕ} {e : DirEntry}
    (hfind : Writer.findDirEntry dirAnode name w = .ok (blk, data, pos) w₁)
    (hparse : DirEntry.parse data pos = some (e, next)) (heven : pos % 2 = 0)
    (hfit : FieldsFit (rawAt data pos) (nlenAt data pos)) (hn : n < 2 ^ 48)
    (hrun : Writer.updateDirEntrySize dirAnode name n w = .ok () w') :
    ResizedTo n w w' blk pos next e ↔
      n < 2 ^ 32 ∨ HasFsizex (rawAt data pos) (nlenAt data pos) := by
  obtain ⟨hin, h18, -, hnext⟩ := of_parse hparse
  obtain ⟨-, hblk, -, hwalk⟩ := of_findDirEntry hfind
  have hpos : 20 ≤ pos := le_of_findInBlock _ hwalk
  obtain ⟨now, ds, hview⟩ := of_updateDirEntrySize hfind hparse heven hfit hrun
  obtain ⟨e', hparse', hresized, hfsize, hfsizex⟩ :=
    @parse_blockWrites pos data n next ds now e hparse hpos hfit
  have hplace : ∀ x ∈ fsizexOf (rawAt data pos) (nlenAt data pos), x + 2 ≤ sizeAt data pos :=
    fun x hx => length_rawAt hin ▸ (mem_fsizexOf hfit hx).2.2.1
  have hlen := length_spliceAll
    (@blockWrites_fit data pos (sizeAt data pos) n ds _ now hin (by omega) h18 hplace)
  have hsame : ∀ lo hi, (hi ≤ pos ∨ pos + sizeAt data pos ≤ lo) → (hi ≤ 4 ∨ 8 ≤ lo) →
      Same data (spliceAll data
        (blockWrites pos n (fsizexOf (rawAt data pos) (nlenAt data pos)) now ds)) lo hi :=
    fun lo hi => same_blockWrites hin (by omega) h18 hplace
  generalize spliceAll data (blockWrites pos n _ now ds) = data' at *
  have hlisted := listed_patch hview hblk hlen
    (hsame 0 2 (Or.inl (by omega)) (Or.inl (by decide)))
    (hsame 20 pos (Or.inl le_rfl) (Or.inr (by decide)))
    (fun hi => hsame next hi (Or.inr hnext.ge) (Or.inr (by omega))) hparse hparse' hwalk
  have hafter : w'.blockOf blk = .ok data' := by rw [hview, Function.update_self]
  have hsize : e'.fileSize = n ↔
      n < 2 ^ 32 ∨ HasFsizex (rawAt data pos) (nlenAt data pos) := by
    have hsplit := halves_or hn
    have hu : U32 = 2 ^ 32 := rfl
    unfold DirEntry.fileSize
    rw [hfsize, hfsizex]
    by_cases hx : HasFsizex (rawAt data pos) (nlenAt data pos)
    · rw [if_pos hx, hu, show (2 : ℕ) ^ 16 = 65536 from rfl, hsplit]
      exact ⟨fun _ => Or.inr hx, fun _ => rfl⟩
    · rw [if_neg hx, Nat.zero_shiftLeft, Nat.or_zero]
      constructor
      · intro h
        exact Or.inl (by omega)
      · rintro (h | h)
        · exact Nat.mod_eq_of_lt h
        · exact absurd h hx
  constructor
  · rintro ⟨d, e₂, hd, hp, hsz, -, -⟩
    rw [hafter] at hd
    cases hd
    rw [hparse'] at hp
    cases hp
    exact hsize.mp hsz
  · intro h
    exact ⟨data', e', hafter, hparse', hsize.mpr h, hresized, hlisted⟩

end Run

/-! ## A file without extra fields -/

/-- Giving the file `a` of a hand-laid volume this size: the writer, the entry as it is found and
parsed, and the writer after the call. -/
def resizePlain (n : ℕ) :
    Option (Writer × Writer × (ℕ × Bytes × ℕ) × (DirEntry × ℕ) × Writer) :=
  match Writer.open (handLaidVolume rootSlots plainEntry) fun _ => ⟨0, 0, 0⟩ with
  | .error _ => none
  | .ok w =>
      match Writer.findDirEntry 5 ['a'] w with
      | .error _ _ => none
      | .ok found w₁ =>
          match DirEntry.parse found.2.1 found.2.2, Writer.updateDirEntrySize 5 ['a'] n w with
          | some parsed, .ok _ w' => some (w, w₁, found, parsed, w')
          | _, _ => none

theorem of_resizePlain {n blk pos next : ℕ} {w w₁ w' : Writer} {data : Bytes} {e : DirEntry}
    (h : resizePlain n = some (w, w₁, (blk, data, pos), (e, next), w')) :
    Writer.open (handLaidVolume rootSlots plainEntry) (fun _ => ⟨0, 0, 0⟩) = .ok w ∧
      Writer.findDirEntry 5 ['a'] w = .ok (blk, data, pos) w₁ ∧
      DirEntry.parse data pos = some (e, next) ∧
      Writer.updateDirEntrySize 5 ['a'] n w = .ok () w' := by
  unfold resizePlain at h
  split at h
  · cases h
  · rename_i w₀ hopen
    split at h
    · cases h
    · rename_i found s hfind
      split at h
      · rename_i parsed s' hparse hrun
        cases h
        exact ⟨hopen, hfind, hparse, hrun⟩
      · cases h

theorem updateDirEntrySize_plain : ∃ w w' blk pos next e,
    Writer.open (handLaidVolume rootSlots plainEntry) (fun _ => ⟨0, 0, 0⟩) = .ok w ∧
      Writer.updateDirEntrySize 5 ['a'] 7 w = .ok () w' ∧ ResizedTo 7 w w' blk pos next e := by
  have hcheck : (match resizePlain 7 with
      | some (_, _, (_, data, pos), _, _) =>
          decide (pos % 2 = 0 ∧ FieldsFit (rawAt data pos) (nlenAt data pos))
      | none => false) = true := by decide +kernel
  split at hcheck
  · rename_i w w₁ blk data pos parsed w' hresize
    obtain ⟨e, next⟩ := parsed
    obtain ⟨hopen, hfind, hparse, hrun⟩ := of_resizePlain hresize
    obtain ⟨heven, hfit⟩ := of_decide_eq_true hcheck
    exact ⟨w, w', blk, pos, next, e, hopen, hrun, (updateDirEntrySize_iff hfind hparse heven hfit
      (by decide) hrun).mpr (Or.inl (by decide))⟩
  · cases hcheck

theorem resizePlain_wraps : (match resizePlain (2 ^ 32) with
    | some (_, _, (blk, data, pos), (e, next), w') =>
        decide (pos % 2 = 0 ∧ e.entrySize % 2 = 0 ∧
          FieldsFit (rawAt data pos) (nlenAt data pos)) &&
        match w'.blockOf blk with
        | .ok data' =>
            match DirEntry.parse data' pos with
            | some (e', next') => decide (next' = next ∧ e'.fileSize = 0)
            | none => false
        | .error _ => false
    | none => false) = true := by decide +kernel

/-- Four gigabytes written to a file without the field: its size is zero. -/
theorem updateDirEntrySize_wraps : ∃ w w₁ w' blk data pos e next data' e',
    Writer.open (handLaidVolume rootSlots plainEntry) (fun _ => ⟨0, 0, 0⟩) = .ok w ∧
      Writer.findDirEntry 5 ['a'] w = .ok (blk, data, pos) w₁ ∧
      DirEntry.parse data pos = some (e, next) ∧ pos % 2 = 0 ∧ e.entrySize % 2 = 0 ∧
      FieldsFit (rawAt data pos) (nlenAt data pos) ∧
      Writer.updateDirEntrySize 5 ['a'] (2 ^ 32) w = .ok () w' ∧ w'.blockOf blk = .ok data' ∧
      DirEntry.parse data' pos = some (e', next) ∧ e'.fileSize = 0 := by
  have hcheck := resizePlain_wraps
  split at hcheck
  · rename_i w w₁ blk data pos e next w' hresize
    obtain ⟨hopen, hfind, hparse, hrun⟩ := of_resizePlain hresize
    obtain ⟨hshape, hcheck⟩ := Bool.and_eq_true_iff.mp hcheck
    obtain ⟨heven, hsize, hfit⟩ := of_decide_eq_true hshape
    split at hcheck
    · rename_i data' hafter
      split at hcheck
      · rename_i e' next' hparse'
        obtain ⟨rfl, hzero⟩ := of_decide_eq_true hcheck
        exact ⟨w, w₁, w', blk, data, pos, e, _, data', e', hopen, hfind, hparse, heven, hsize, hfit,
          hrun, hafter, hparse', hzero⟩
      · cases hcheck
    · cases hcheck
  · cases hcheck

end Pfs3
