import Pfs3.Dirs.Encode
import Pfs3.Tree.FileSystem
import Pfs3.Tree.Readback

/-!
# A volume is a file system

Each call does to the volume what `FileSystem.Step` says, when the names it gives can be stored and
are free.  Then so does each run, and whoever reads the volume reads the file system.
-/

namespace Pfs3

open ByteList Stop Store

/-- What an entry says of its object. -/
def Entry.item (e : Entry) : Item :=
  ⟨e.text, e.entryType, e.anode.toNat, e.fileSize, e.protection.toNat⟩

/-- What a reader learns from an entry. -/
def DirEntry.item (e : DirEntry) : Item := ⟨e.name, e.entryType, e.anode, e.fileSize, e.protection⟩

theorem Entry.item_toDirEntry (e : Entry) : e.toDirEntry.item = e.item := rfl

namespace Store

theorem matchesName_iff {name : Name} {e : Entry} :
    matchesName name e = true ↔ foldName e.text = foldName name := nameEqCi_iff

/-- The entries of the directories are the objects of the file system, and each name occurs once in
a directory. -/
structure Lists (L : ℕ → List Entry) (fs : FileSystem) : Prop where
  names : ∀ {p x y}, x ∈ L p → y ∈ L p → foldName x.text = foldName y.text → x = y
  find : ∀ {p name i}, fs.find p name = some i ↔
    ∃ e ∈ L p, foldName e.text = foldName name ∧ i = e.item

namespace Lists

variable {L L' : ℕ → List Entry} {fs : FileSystem} {p : ℕ} {name : Name} {e : Entry}

/-- The first entry with a name is the only one. -/
theorem find?_eq (h : Lists L fs) :
    fs.find p name = ((L p).find? (matchesName name)).map Entry.item := by
  cases hf : (L p).find? (matchesName name) with
  | none =>
      rw [Option.map_none, Option.eq_none_iff_forall_ne_some]
      intro i hi
      obtain ⟨e, he, hname, -⟩ := h.find.mp hi
      exact List.find?_eq_none.mp hf e he (matchesName_iff.mpr hname)
  | some e =>
      exact h.find.mpr ⟨e, List.mem_of_find?_eq_some hf, matchesName_iff.mp (List.find?_some hf), rfl⟩

theorem find_some (h : Lists L fs) (he : (L p).find? (matchesName name) = some e) :
    fs.find p name = some e.item := by
  rw [h.find?_eq, he, Option.map_some]

theorem find_none (h : Lists L fs) (he : (L p).find? (matchesName name) = none) :
    fs.find p name = none := by
  rw [h.find?_eq, he, Option.map_none]

theorem absent (h : Lists L fs) (hnone : fs.find p name = none) :
    ∀ x ∈ L p, foldName x.text ≠ foldName name := by
  intro x hx hname
  rw [h.find.mpr ⟨x, hx, hname, rfl⟩] at hnone
  cases hnone

theorem set {o : Option Item} (h : Lists L fs)
    (names : ∀ {q x y}, x ∈ L' q → y ∈ L' q → foldName x.text = foldName y.text → x = y)
    (here : ∀ i, o = some i ↔ ∃ x ∈ L' p, foldName x.text = foldName name ∧ i = x.item)
    (others : ∀ q x, ¬ (q = p ∧ foldName x.text = foldName name) → (x ∈ L' q ↔ x ∈ L q)) :
    Lists L' (fs.set p name o) := by
  refine ⟨names, fun {q a i} => ?_⟩
  rw [FileSystem.find_set]
  by_cases hq : q = p ∧ foldName a = foldName name
  · obtain ⟨rfl, ha⟩ := hq
    rw [if_pos ⟨rfl, ha⟩, ha]
    exact here i
  · rw [if_neg hq, h.find]
    refine exists_congr fun x => ?_
    constructor
    · rintro ⟨hx, hname, hi⟩
      exact ⟨(others q x fun hp => hq ⟨hp.1, hname ▸ hp.2⟩).mpr hx, hname, hi⟩
    · rintro ⟨hx, hname, hi⟩
      exact ⟨(others q x fun hp => hq ⟨hp.1, hname ▸ hp.2⟩).mp hx, hname, hi⟩

/-- One entry more, in place of the one that had the name. -/
theorem put (h : Lists L fs)
    (mem : ∀ q x, x ∈ L' q ↔ (q = p ∧ x = e) ∨
      (x ∈ L q ∧ ¬ (q = p ∧ foldName x.text = foldName e.text))) :
    Lists L' (fs.put p e.item) := by
  refine h.set (fun {q x y} hx hy heq => ?_) (fun i => ?_) fun q x hne => ?_
  · rcases (mem q x).mp hx with ⟨hq, rfl⟩ | ⟨hx, hxe⟩ <;>
      rcases (mem q y).mp hy with ⟨hq', rfl⟩ | ⟨hy, hye⟩
    · rfl
    · exact absurd ⟨hq, heq.symm⟩ hye
    · exact absurd ⟨hq', heq⟩ hxe
    · exact h.names hx hy heq
  · constructor
    · intro hi
      cases hi
      exact ⟨e, (mem p e).mpr (.inl ⟨rfl, rfl⟩), rfl, rfl⟩
    · rintro ⟨x, hx, hname, rfl⟩
      rcases (mem p x).mp hx with ⟨-, rfl⟩ | ⟨-, hne⟩
      · rfl
      · exact absurd ⟨rfl, hname⟩ hne
  · rw [mem]
    constructor
    · rintro (⟨rfl, rfl⟩ | ⟨hx, -⟩)
      · exact absurd ⟨rfl, rfl⟩ hne
      · exact hx
    · exact fun hx => .inr ⟨hx, hne⟩

/-- The entry with the name is gone. -/
theorem drop (h : Lists L fs)
    (mem : ∀ q x, x ∈ L' q ↔ x ∈ L q ∧ ¬ (q = p ∧ foldName x.text = foldName name)) :
    Lists L' (fs.drop p name) := by
  refine h.set (fun {q x y} hx hy heq => h.names ((mem q x).mp hx).1 ((mem q y).mp hy).1 heq)
    (fun i => ?_) fun q x hne => ?_
  · constructor
    · intro hi
      cases hi
    · rintro ⟨x, hx, hname, -⟩
      exact absurd ⟨rfl, hname⟩ ((mem p x).mp hx).2
  · rw [mem]
    exact ⟨fun hx => hx.1, fun hx => ⟨hx, hne⟩⟩

theorem fill (h : Lists L fs) (f : ℕ) (data : Bytes) : Lists L (fs.fill f data) := ⟨h.names, h.find⟩

end Lists

/-- The entries of the directories are the objects of the file system, and the files have its
bytes. -/
structure Shows (S : Store) (T : Owners) (fs : FileSystem) : Prop where
  lists : Lists (entriesOf S.live T) fs
  bytes : ∀ {p e}, e ∈ entriesOf S.live T p → e.isDir = false →
    fs.bytes e.anode.toNat = contentsOf S T e

variable {S S' : Store} {T T' : Owners} {fs : FileSystem} {p : ℕ} {name : Name} {e : Entry}

namespace Shows

/-! ### Paths -/

theorem descend_walk (h : S.Shows T fs) (hset : S.Settled T) (parts : List Name) :
    ∀ {p q : ℕ} {S₁ : Store}, kinds T p = some true → Store.descend p parts S = .ok q S₁ →
      fs.walk p parts = .ok q := by
  induction parts with
  | nil =>
      intro p q S₁ _ hrun
      cases hrun
      rfl
  | cons part rest ih =>
      intro p q S₁ hp hrun
      obtain ⟨n, hn, hd⟩ := Option.map_eq_some_iff.mp hp
      unfold Store.descend at hrun
      rw [bind_of_ok (hset.listDir_run hn hd)] at hrun
      cases hf : (entriesOf S.live T p).find? fun e => nameEqCi e.text part && e.isDir with
      | none =>
          rw [hf] at hrun
          cases hrun
      | some e =>
          rw [hf] at hrun
          have hmem := List.mem_of_find?_eq_some hf
          have hpred := List.find?_some hf
          rw [Bool.and_eq_true] at hpred
          have hfind : fs.find p part = some e.item :=
            h.lists.find.mpr ⟨e, hmem, nameEqCi_iff.mp hpred.1, rfl⟩
          have hdir : e.item.isDir = true := hpred.2
          unfold FileSystem.walk
          rw [hfind]
          dsimp only
          rw [if_pos hdir]
          exact ih ((hset.forest.entry hmem).1.trans (congrArg some hpred.2)) hrun

theorem places (h : S.Shows T fs) (hset : S.Settled T) {path : Name}
    (hsplit : Store.splitPath path S = .ok (p, name) S) : fs.Places path p name := by
  unfold FileSystem.Places FileSystem.parent
  unfold Store.splitPath at hsplit
  cases hlast : (pathParts path).getLast? with
  | none =>
      simp only [hlast] at hsplit
      cases hsplit
  | some filename =>
      simp only [hlast] at hsplit
      obtain ⟨q, S₁, hdesc, hrun⟩ := of_bind_eq_ok hsplit
      cases hrun
      dsimp only
      rw [h.descend_walk hset _ hset.forest.root hdesc]
      rfl

end Shows

/-! ## The effects -/

/-- An entry in the middle of a directory is replaced by one of the same name. -/
theorem mem_replaced {L L' : ℕ → List Entry} {e' : Entry} {l₁ l₂ : List Entry} (h : Lists L fs)
    (hnodup : ((L p).map Entry.anode).Nodup) (hold : L p = l₁ ++ e :: l₂)
    (hnew : L' p = l₁ ++ e' :: l₂) (hother : ∀ q, q ≠ p → L' q = L q) (htext : e'.text = e.text)
    (q : ℕ) (x : Entry) : x ∈ L' q ↔ (q = p ∧ x = e') ∨
      (x ∈ L q ∧ ¬ (q = p ∧ foldName x.text = foldName e'.text)) := by
  by_cases hq : q = p
  · subst hq
    have he : e ∈ L q := by rw [hold]; exact Forest.mem_middle.mpr (.inl rfl)
    rw [hold, Forest.nodup_middle] at hnodup
    rw [hnew, Forest.mem_middle, htext]
    refine or_congr (by simp) ⟨fun hx => ?_, fun hx => ?_⟩
    · have hxL : x ∈ L q := by rw [hold]; exact Forest.mem_middle.mpr (.inr hx)
      refine ⟨hxL, fun hname => hnodup.1 x hx ?_⟩
      rw [h.names hxL he hname.2]
    · rw [hold, Forest.mem_middle] at hx
      refine hx.1.resolve_left ?_
      rintro rfl
      exact hx.2 ⟨rfl, rfl⟩
  · rw [hother q hq]
    simp [hq]

theorem Entered.mem {nr : ℕ} {m : Node} (h : Entered S S' T T' p nr m e) (q : ℕ) (x : Entry) :
    x ∈ entriesOf S'.live T' q ↔ (q = p ∧ x = e) ∨ x ∈ entriesOf S.live T q := by
  by_cases hq : q = p
  · subst hq
    obtain ⟨l₁, l₂, hl, hl'⟩ := h.entries
    rw [hl', hl, Forest.mem_middle]
    simp
  · rw [h.entries_other q hq]
    simp [hq]

/-- The blocks of a file that is there do not change while another object is made. -/
theorem Entered.contents {nr : ℕ} {m : Node} {x : Entry} {q : ℕ} (h : Entered S S' T T' p nr m e)
    (hset : S.Settled T) (hx : x ∈ entriesOf S.live T q) (hfile : x.isDir = false)
    (hdata : ∀ n, T x.anode.toNat = some n → ∀ b ∈ n.blocks, S'.data b = S.data b) :
    contentsOf S' T' x = contentsOf S T x := by
  refine contentsOf_congr (h.others _ ?_ ?_) hdata
  · rintro heq
    have hkind := (hset.forest.entry hx).1
    rw [heq, h.dir, hfile] at hkind
    cases hkind
  · intro heq
    obtain ⟨n, hn, -⟩ := hset.node hx
    rw [heq, h.new] at hn
    cases hn

/-- No object of the file system has the handle of a new one. -/
theorem Entered.unused {nr : ℕ} {m : Node} (h : Entered S S' T T' p nr m e) (hset : S.Settled T)
    (hs : S.Shows T fs) : fs.Unused nr := by
  refine ⟨?_, fun q a i hi => ?_, fun a => ?_⟩
  · rintro rfl
    have hroot := hset.forest.root
    rw [kinds, h.new] at hroot
    cases hroot
  · obtain ⟨x, hx, -, rfl⟩ := hs.lists.find.mp hi
    intro heq
    obtain ⟨n, hn, -⟩ := hset.node hx
    have hnr : x.anode.toNat = nr := heq
    rw [hnr, h.new] at hn
    cases hn
  · rw [Option.eq_none_iff_forall_ne_some]
    intro i hi
    obtain ⟨x, hx, -⟩ := hs.lists.find.mp hi
    rw [entriesOf_none h.new] at hx
    cases hx

/-- A new object, which takes a name that no object has. -/
theorem Shows.entered {nr : ℕ} {m : Node} (hs : S.Shows T fs) (hset : S.Settled T)
    (h : Entered S S' T T' p nr m e) (habsent : fs.find p e.text = none)
    (hdata : ∀ q x n, x ∈ entriesOf S.live T q → x.isDir = false → T x.anode.toNat = some n →
      ∀ b ∈ n.blocks, S'.data b = S.data b) {bytes : Bytes}
    (hbytes : e.isDir = false → contentsOf S' T' e = bytes) :
    S'.Shows T' ((fs.put p e.item).fill nr bytes) := by
  have hunused := h.unused hset hs
  refine ⟨(hs.lists.put fun q x => ?_).fill .., fun {q x} hx hfile => ?_⟩
  · rw [h.mem]
    refine or_congr_right ⟨fun hx => ⟨hx, fun hname => ?_⟩, fun hx => hx.1⟩
    exact hs.lists.absent habsent x (hname.1 ▸ hx) hname.2
  · rw [FileSystem.bytes_fill]
    rcases (h.mem q x).mp hx with ⟨-, rfl⟩ | hx
    · rw [if_pos h.anode, hbytes hfile]
    · have hne : x.anode.toNat ≠ nr :=
        hunused.handle q x.text x.item (hs.lists.find.mpr ⟨x, hx, rfl, rfl⟩)
      rw [if_neg hne, FileSystem.bytes_put, hs.bytes hx hfile]
      exact (h.contents hset hx hfile fun n hn => hdata q x n hx hfile hn).symm

/-- A file that is written anew. -/
theorem Shows.rewritten {m : Node} {now : Datestamp} {data : Bytes} (hs : S.Shows T fs)
    (hset : S.Settled T) (h : Rewritten S S' T p e m now data)
    (hfit : Writer.blocksFor data.length < U32)
    (hsize : (e.setSize data.length now).fileSize = data.length) :
    S'.Shows (Function.update T e.anode.toNat (some m))
      ((fs.put p { e.item with size := data.length }).fill e.anode.toNat data) := by
  obtain ⟨l₁, l₂, hold, hnew⟩ := h.entries
  have hmem := mem_replaced hs.lists (hset.forest.nodup p) hold hnew h.entries_other rfl
  have hitem : (e.setSize data.length now).item = { e.item with size := data.length } := by
    exact congrArg (fun n => { e.item with size := n }) hsize
  have he : e ∈ entriesOf S.live T p := by rw [hold]; exact Forest.mem_middle.mpr (.inl rfl)
  refine ⟨hitem ▸ (hs.lists.put hmem).fill .., fun {q x} hx hfile => ?_⟩
  rw [FileSystem.bytes_fill]
  rcases (hmem q x).mp hx with ⟨-, rfl⟩ | ⟨hx, hne⟩
  · exact (if_pos rfl).trans (h.contents hfit hsize).symm
  · have hanode : x.anode ≠ e.anode := by
      intro heq
      obtain ⟨rfl, rfl⟩ := hset.entry_inj hx he heq
      exact hne ⟨rfl, rfl⟩
    rw [if_neg fun heq => hanode (UInt32.toNat_inj.mp heq), FileSystem.bytes_put,
      hs.bytes hx hfile, h.contents_other hanode]

theorem Shows.protected {protection : UInt8} (hs : S.Shows T fs) (hset : S.Settled T)
    (h : Protected S S' T p e protection) :
    S'.Shows T (fs.put p { e.item with protection := protection.toNat }) := by
  obtain ⟨l₁, l₂, hold, hnew⟩ := h.entries
  have hmem := mem_replaced hs.lists (hset.forest.nodup p) hold hnew h.entries_other rfl
  have he : e ∈ entriesOf S.live T p := by rw [hold]; exact Forest.mem_middle.mpr (.inl rfl)
  refine ⟨hs.lists.put hmem, fun {q x} hx hfile => ?_⟩
  have hsame : ∀ y, contentsOf S' T y = contentsOf S T y := fun y =>
    contentsOf_congr rfl fun n _ b _ => by rw [h.data]
  rw [hsame, FileSystem.bytes_put]
  rcases (hmem q x).mp hx with ⟨-, rfl⟩ | ⟨hx, -⟩
  · show fs.bytes e.anode.toNat = contentsOf S T e
    exact hs.bytes he hfile
  · exact hs.bytes hx hfile

/-- An object that is gone. -/
theorem Shows.deleted {l₁ l₂ : List Entry} (hs : S.Shows T fs) (hset : S.Settled T)
    (h : Deleted S S' T p e l₁ l₂) (hname : foldName e.text = foldName name) :
    S'.Shows (Function.update T e.anode.toNat none) (fs.drop p name) := by
  have he : e ∈ entriesOf S.live T p := by rw [h.old]; exact Forest.mem_middle.mpr (.inl rfl)
  have hnodup := hset.forest.nodup p
  rw [h.old, Forest.nodup_middle] at hnodup
  have hmem : ∀ q x, x ∈ entriesOf S'.live (Function.update T e.anode.toNat none) q ↔
      x ∈ entriesOf S.live T q ∧ ¬ (q = p ∧ foldName x.text = foldName name) := by
    intro q x
    by_cases hq : q = p
    · subst hq
      rw [h.entries]
      constructor
      · intro hx
        have hxL : x ∈ entriesOf S.live T q := by
          rw [h.old]
          exact Forest.mem_middle.mpr (.inr hx)
        refine ⟨hxL, fun hxname => hnodup.1 x hx ?_⟩
        rw [hs.lists.names hxL he (hxname.2.trans hname.symm)]
      · rintro ⟨hx, hne⟩
        rw [h.old, Forest.mem_middle] at hx
        refine hx.resolve_left ?_
        rintro rfl
        exact hne ⟨rfl, hname⟩
    · rw [h.entries_other q hq]
      simp [hq]
  refine ⟨hs.lists.drop hmem, fun {q x} hx hfile => ?_⟩
  obtain ⟨hx, hne⟩ := (hmem q x).mp hx
  have hanode : x.anode.toNat ≠ e.anode.toNat := by
    intro heq
    obtain ⟨rfl, rfl⟩ := hset.entry_inj hx he (UInt32.toNat_inj.mp heq)
    exact hne ⟨rfl, hname⟩
  rw [FileSystem.bytes_drop, hs.bytes hx hfile]
  refine (contentsOf_congr (Function.update_of_ne hanode _ _) fun n _ b _ => ?_).symm
  rw [h.data]

/-- What a call finds that deletes an object. -/
theorem Shows.gone {l₁ l₂ : List Entry} (hs : S.Shows T fs) (h : Deleted S S' T p e l₁ l₂)
    (hname : foldName e.text = foldName name) :
    fs.find p name = some e.item ∧ ∀ a, fs.find e.item.handle a = none := by
  have he : e ∈ entriesOf S.live T p := by rw [h.old]; exact Forest.mem_middle.mpr (.inl rfl)
  refine ⟨hs.lists.find.mpr ⟨e, he, hname, rfl⟩, fun a => hs.lists.find_none ?_⟩
  show (entriesOf S.live T e.anode.toNat).find? _ = none
  rw [h.empty]
  rfl

/-- An object that has its entry somewhere else. -/
theorem Shows.moved {s d : ℕ} {e' : Entry} {a : Name} (hs : S.Shows T fs) (hset : S.Settled T)
    (h : Moved S S' T T' s d e e') (ha : foldName e.text = foldName a)
    (hplaced : e' ∈ entriesOf S'.live T' d)
    (habsent : ∀ x ∈ entriesOf S.live T d, foldName x.text ≠ foldName e'.text)
    (hitem : e'.item = { e.item with name := e'.text }) :
    S'.Shows T' ((fs.drop s a).put d { e.item with name := e'.text }) := by
  have hmem₁ : ∀ q x, x ∈ (entriesOf S.live T q).filter (fun y => decide (y.anode ≠ e.anode)) ↔
      x ∈ entriesOf S.live T q ∧ ¬ (q = s ∧ foldName x.text = foldName a) := by
    intro q x
    rw [List.mem_filter, decide_eq_true_eq]
    refine and_congr_right fun hx => not_congr ?_
    constructor
    · intro heq
      obtain ⟨rfl, rfl⟩ := hset.entry_inj hx h.old heq
      exact ⟨rfl, ha⟩
    · rintro ⟨rfl, hname⟩
      rw [hs.lists.names hx h.old (hname.trans ha.symm)]
  have hmem : ∀ q x, x ∈ entriesOf S'.live T' q ↔ (q = d ∧ x = e') ∨
      (x ∈ (entriesOf S.live T q).filter (fun y => decide (y.anode ≠ e.anode)) ∧
        ¬ (q = d ∧ foldName x.text = foldName e'.text)) := by
    intro q x
    rw [List.mem_filter, decide_eq_true_eq]
    constructor
    · intro hx
      by_cases hanode : x.anode = e.anode
      · exact .inl (h.settled.entry_inj hx hplaced (hanode.trans h.anode.symm))
      · rcases h.entries q x hx with hx | hx
        · exact .inr ⟨⟨hx, hanode⟩, fun hname => habsent x (hname.1 ▸ hx) hname.2⟩
        · exact .inl hx
    · rintro (⟨rfl, rfl⟩ | ⟨⟨hx, hne⟩, -⟩)
      · exact hplaced
      · exact h.stays q x hx hne
  rw [← hitem]
  refine ⟨(hs.lists.drop hmem₁).put hmem, fun {q x} hx hfile => ?_⟩
  have hsame : ∀ {y r}, y ∈ entriesOf S.live T r → y.isDir = false →
      contentsOf S' T' y = contentsOf S T y := by
    intro y r hy hyfile
    refine contentsOf_congr (h.others _ ?_) fun n _ b _ => by rw [h.data]
    intro heq
    have hkind := (hset.forest.entry hy).1
    rw [heq, h.dir, hyfile] at hkind
    cases hkind
  rw [FileSystem.bytes_put, FileSystem.bytes_drop]
  rcases (hmem q x).mp hx with ⟨-, rfl⟩ | ⟨hx, -⟩
  · have htype : x.entryType = e.entryType := congrArg Item.type hitem
    have hsize : x.fileSize = e.fileSize := congrArg Item.size hitem
    have hdir : e.isDir = false := by
      rw [← hfile, Entry.isDir, Entry.isDir, htype]
    rw [h.anode, hs.bytes h.old hdir, ← hsame h.old hdir]
    unfold contentsOf
    rw [h.anode, hsize]
  · have hx := ((hmem₁ q x).mp hx).1
    rw [hs.bytes hx hfile, hsame hx hfile]

/-- Calls that change no entry and no data. -/
theorem Shows.congr (hs : S.Shows T fs) (hlive : S'.live = S.live) (hdata : S'.data = S.data) :
    S'.Shows T fs := by
  refine ⟨hlive ▸ hs.lists, fun {q x} hx hfile => ?_⟩
  rw [hlive] at hx
  rw [hs.bytes hx hfile]
  exact (contentsOf_congr rfl fun n _ b _ => by rw [hdata]).symm

/-! ## The calls -/

/-- What a call of the interface has to respect: the name given can be stored, a new directory or
soft link takes a free name, and the size of a file fits its entry. -/
def Proper (S : Store) : Call → Prop
  | .writeFile path data => ∀ p name, splitPath path S = .ok (p, name) S →
      storedName name = name ∧ (∀ e, S.found p name = some e → e.IsPlain) ∧ S.Sizes p name data
  | .createDir path => ∀ p name, splitPath path S = .ok (p, name) S →
      storedName name = name ∧ S.found p name = none
  | .createSoftlink path target => ∀ p name, splitPath path S = .ok (p, name) S →
      storedName name = name ∧ S.found p name = none ∧
        Writer.blocksFor (asBytes target).length < U32
  | .renameIn _ _ _ dstName => storedName dstName = dstName
  | _ => True

/-- The item of a new entry. -/
theorem item_build {now : Datestamp} {ty : ℤ} {nr size prot : ℕ} (hname : storedName name = name)
    (hlo : -128 ≤ ty) (hhi : ty < 128)
    (hnr : (Entry.build now name ty nr size prot).anode.toNat = nr) (hsize : size < 2 ^ 48)
    (hprot : prot < 256) :
    (Entry.build now name ty nr size prot).item = ⟨name, ty, nr, size, prot⟩ := by
  unfold Entry.item
  rw [text_build, hname, hnr, Entry.entryType_build, Entry.signed_ofNat hlo hhi,
    Entry.fileSize_build_whole hsize, Entry.protection_build hprot]

/-- The item of an entry that is built again under another name. -/
theorem item_rebuild {now : Datestamp} (hname : storedName name = name) :
    (Entry.build now name e.entryType e.anode.toNat e.fileSize e.protection.toNat).item =
      { e.item with name := name } := by
  unfold Entry.item
  rw [text_build, hname, Entry.build_anode e.anode.toNat_lt, Entry.entryType_rebuild,
    Entry.fileSize_rebuild, Entry.protection_build e.protection.toNat_lt]

theorem Shows.find_eq (hs : S.Shows T fs) (hset : S.Settled T) {n : Node} (hp : T p = some n)
    (hdir : n.isDir = true) : fs.find p name = (S.found p name).map Entry.item := by
  rw [hset.found_eq hp hdir, hs.lists.find?_eq]

/-- An object that is stored whole. -/
theorem Entered.stored {nr : ℕ} {m : Node} {bytes : Bytes} (h : Entered S S' T T' p nr m e)
    (hst : StoredAs S S' m bytes) (hfit : Writer.blocksFor bytes.length < U32)
    (hsize : e.fileSize = bytes.length) : contentsOf S' T' e = bytes := by
  have hnode := h.anode.symm ▸ h.node
  rw [contentsOf_some hnode, hsize]
  exact h.settled.owned.data_self hnode hst.data hst.length hfit

/-- The blocks of the other files are not the ones written. -/
theorem Entered.data_stored {nr : ℕ} {m : Node} {bytes : Bytes} (h : Entered S S' T T' p nr m e)
    (hset : S.Settled T) (hst : StoredAs S S' m bytes) (q : ℕ) (x : Entry) (n : Node)
    (hx : x ∈ entriesOf S.live T q) (hfile : x.isDir = false) (hn : T x.anode.toNat = some n) :
    ∀ b ∈ n.blocks, S'.data b = S.data b := by
  have hne : x.anode.toNat ≠ nr := by
    intro heq
    rw [heq, h.new] at hn
    cases hn
  have hkeep : T' x.anode.toNat = some n := by
    rw [h.others _ ?_ hne, hn]
    intro heq
    have hkind := (hset.forest.entry hx).1
    rw [heq, h.dir, hfile] at hkind
    cases hkind
  exact h.settled.owned.data_other h.node hst.data hkeep hne

/-- What a call does that has what it needs. -/
theorem post_meaning (hs : S.Shows T fs) (h : S.Settled T) (c : Call) (hc : S.Affords c)
    (hproper : S.Proper c) :
    Post c.spec (fun _ S' => ∃ T' fs', S'.Settled T' ∧ S'.Shows T' fs' ∧ fs.Step c fs')
      anyError S := by
  cases c with
  | writeFile path data =>
      refine (post_splitPath_run h path).seq ?_
      rintro ⟨p, name⟩ S₀ ⟨hS, hsplit, n, hp, hdir⟩
      obtain rfl : S = S₀ := hS.symm
      have hcan := hc p name hsplit
      obtain ⟨hname, hplain, hsizes⟩ := hproper p name hsplit
      have hplaces := hs.places h hsplit
      refine (@post_writeFileIn _ _ _ _ name data h hp hdir (fun e m he hplain hm => ?_)
        fun hno => ?_).mono ?_ fun _ _ h => h
      · have hover := hcan.overwrite e he hplain
        rw [h.blocksOf hm] at hover
        exact hover
      · obtain ⟨k, hroom, hk⟩ := (hcan.create hno).room h hp
        exact ⟨k, hroom, fun now nr hspace => hk (size_build .. ▸ hspace)⟩
      · have hlt := lt_of_blocks hsizes.blocks
        rintro _ S' (⟨e, m, now, he, -, hw⟩ | ⟨hno, T', nr, m, now, hent, hst⟩)
        · have hsize : (e.setSize data.length now).fileSize = data.length := by
            rcases hsizes.entry e he with hsmall | hx
            · exact Entry.fileSize_setSize e now hsmall
            · exact Entry.fileSize_setSize_wide now hlt hx
          have hfind : fs.find p name = some e.item := by
            rw [hs.find_eq h hp hdir, he, Option.map_some]
          exact ⟨_, _, hw.settled, hs.rewritten h hw hsizes.blocks hsize,
            .overwrite hplaces hfind (hplain e he)⟩
        · have hnone : fs.find p name = none := by
            rw [hs.find_eq h hp hdir, Option.map_eq_none_iff, Option.eq_none_iff_forall_ne_some]
            exact fun e he => hno e he (hplain e he)
          have hitem := item_build hname (by decide) (by decide) hent.anode hlt (by decide)
          have habsent : fs.find p (Entry.build now name ST_FILE nr data.length 0).text = none := by
            rw [text_build, hname, hnone]
          have hshows := hs.entered h hent habsent (hent.data_stored h hst) fun _ =>
            hent.stored hst hsizes.blocks (Entry.fileSize_build_whole hlt)
          rw [hitem] at hshows
          exact ⟨T', _, hent.settled, hshows, .create nr hplaces hnone (hent.unused h hs)⟩
  | createDir path =>
      refine (post_splitPath_run h path).seq ?_
      rintro ⟨p, name⟩ S₀ ⟨hS, hsplit, n, hp, hdir⟩
      obtain rfl : S = S₀ := hS.symm
      obtain ⟨k, hroom, hk⟩ := CanEnter.room (hc p name hsplit) h hp
      obtain ⟨hname, hfree⟩ := hproper p name hsplit
      have hplaces := hs.places h hsplit
      refine (post_createDirIn h hp hdir hroom fun now nr hspace =>
        hk (size_build .. ▸ hspace)).mono ?_ fun _ _ h => h
      rintro _ S' ⟨T', nr, m, now, hent, hm, hdata⟩
      have hnone : fs.find p name = none := by
        rw [hs.find_eq h hp hdir, hfree, Option.map_none]
      have hitem := item_build hname (by decide) (by decide) hent.anode (by decide) (by decide)
      have habsent : fs.find p (Entry.build now name ST_USERDIR nr 0 0).text = none := by
        rw [text_build, hname, hnone]
      have hempty : (Entry.build now name ST_USERDIR nr 0 0).isDir = false →
          contentsOf S' T' (Entry.build now name ST_USERDIR nr 0 0) = fs.bytes nr := fun hfile => by
        rw [hent.isDir, hm] at hfile
        cases hfile
      have hshows := hs.entered h hent habsent (fun _ _ _ _ _ _ b _ => by rw [hdata]) hempty
      have hbytes : ∀ i, (fs.put p i).fill nr (fs.bytes nr) = fs.put p i := fun _ =>
        FileSystem.fill_bytes
      rw [hitem, hbytes] at hshows
      exact ⟨T', _, hent.settled, hshows, .createDir nr hplaces hnone (hent.unused h hs)⟩
  | createSoftlink path target =>
      refine (post_splitPath_run h path).seq ?_
      rintro ⟨p, name⟩ S₀ ⟨hS, hsplit, n, hp, hdir⟩
      obtain rfl : S = S₀ := hS.symm
      obtain ⟨k, hroom, hk⟩ := CanEnter.room (hc p name hsplit) h hp
      obtain ⟨hname, hfree, hfit⟩ := hproper p name hsplit
      have hplaces := hs.places h hsplit
      refine (post_createSoftlinkIn h hp hdir hroom fun now nr hspace =>
        hk (size_build .. ▸ hspace)).mono ?_ fun _ _ h => h
      rintro _ S' ⟨T', nr, m, now, hent, hst⟩
      have hlt := lt_of_blocks hfit
      have hnone : fs.find p name = none := by
        rw [hs.find_eq h hp hdir, hfree, Option.map_none]
      have hitem := item_build hname (by decide) (by decide) hent.anode hlt (by decide)
      have habsent : fs.find p
          (Entry.build now name ST_SOFTLINK nr (asBytes target).length 0).text = none := by
        rw [text_build, hname, hnone]
      have hshows := hs.entered h hent habsent (hent.data_stored h hst) fun _ =>
        hent.stored hst hfit (Entry.fileSize_build_whole hlt)
      rw [hitem] at hshows
      exact ⟨T', _, hent.settled, hshows, .createSoftlink nr hplaces hnone (hent.unused h hs)⟩
  | createHardlink path targetAnode => exact hc.elim
  | delete path =>
      refine (post_splitPath_run h path).seq ?_
      rintro ⟨p, name⟩ S₀ ⟨hS, hsplit, n, hp, hdir⟩
      obtain rfl : S = S₀ := hS.symm
      have hplaces := hs.places h hsplit
      refine (post_deleteIn h hp hdir name).mono ?_ fun _ _ h => h
      rintro _ S' ⟨l₁, e, l₂, he, -, hgone⟩
      obtain ⟨hfind, hempty⟩ := hs.gone hgone (matchesName_iff.mp he)
      exact ⟨_, _, hgone.settled, hs.deleted h hgone (matchesName_iff.mp he),
        .delete hplaces hfind hempty⟩
  | renameIn s srcName d name =>
      obtain ⟨hsrc, hdst, hself⟩ := hc
      obtain ⟨n, hn, hnd⟩ := h.isDirectory hsrc
      obtain ⟨m, hm, hmd⟩ := h.isDirectory hdst
      refine (post_renameIn h hn hnd hm hmd hself).mono ?_ fun _ _ h => h
      rintro _ S' ⟨S₁, T₁, T', e, now, he, -, hvac, hmoved, hplaced⟩
      have hfind := hs.lists.find_some he
      have hsrcName := matchesName_iff.mp (List.find?_some he)
      have htext : (Entry.build now name e.entryType e.anode.toNat e.fileSize
          e.protection.toNat).text = storedName name := text_build
      have hitem : (Entry.build now name e.entryType e.anode.toNat e.fileSize
          e.protection.toNat).item = { e.item with name := name } := item_rebuild hproper
      generalize Entry.build now name e.entryType e.anode.toNat e.fileSize e.protection.toNat = e'
        at hmoved hplaced htext hitem
      have hproper : storedName name = name := hproper
      rw [hproper] at htext
      have hmem : e' ∈ entriesOf S'.live T' d := hplaced fun hsd => by
        rw [Bool.eq_false_iff]
        intro hmatch
        refine hself ⟨hsd, nameEqCi_iff.mpr ?_⟩
        rw [← matchesName_iff.mp hmatch, htext]
      rw [← htext] at hitem
      have hapart : ¬ (s = d ∧ foldName srcName = foldName name) := fun heq =>
        hself ⟨heq.1, nameEqCi_iff.mpr heq.2⟩
      cases hvac with
      | free store owners hnone =>
          obtain rfl := store.symm
          obtain rfl := owners.symm
          have habsent : ∀ x ∈ entriesOf S.live T d, foldName x.text ≠ foldName e'.text := by
            intro x hx hname
            rw [htext] at hname
            have hno := hnone x hx
            rw [matchesName_iff.mpr hname] at hno
            cases hno
          have hshows := hs.moved h hmoved hsrcName hmem habsent hitem
          rw [htext] at hshows
          refine ⟨T', _, hmoved.settled, hshows, .rename hfind hapart fun j hj => ?_⟩
          obtain ⟨x, hx, hname, -⟩ := hs.lists.find.mp hj
          exact absurd (hname.trans (congrArg foldName htext.symm)) (habsent x hx)
      | first x l₁ l₂ hx first gone owners =>
          subst owners
          have hxname := matchesName_iff.mp hx
          have hs₁ := hs.deleted h gone hxname
          obtain ⟨hxfind, hempty⟩ := hs.gone gone hxname
          have hdropped : (fs.drop d name).find d e'.text = none := by
            rw [FileSystem.find_drop, htext, if_pos ⟨rfl, rfl⟩]
          have habsent := hs₁.lists.absent hdropped
          have hshows := hs₁.moved gone.settled hmoved hsrcName hmem habsent hitem
          rw [htext, FileSystem.put_drop_drop (i := { e.item with name := name })] at hshows
          refine ⟨T', _, hmoved.settled, hshows, .rename hfind hapart fun j hj => ?_⟩
          rw [hxfind] at hj
          cases hj
          exact hempty
  | updateDirEntryProtection p name protection =>
      obtain ⟨n, hn, hnd⟩ := h.isDirectory hc
      refine (post_updateDirEntryProtection h hn hnd name protection).mono ?_ fun _ _ h => h
      rintro _ S' ⟨e, he, hprot⟩
      obtain ⟨l₁, l₂, hold, -⟩ := hprot.entries
      have hmem : e ∈ entriesOf S.live T p := by rw [hold]; exact Forest.mem_middle.mpr (.inl rfl)
      exact ⟨T, _, hprot.settled, hs.protected h hprot, .protect protection
        (hs.lists.find.mpr ⟨e, hmem, matchesName_iff.mp he, rfl⟩)⟩
  | setVolumeName name =>
      refine (post_setVolumeName h name).mono ?_ fun _ _ h => h
      rintro _ S' ⟨hset, hlive, -, hdata⟩
      exact ⟨T, fs, hset, hs.congr hlive hdata, .setVolumeName name⟩

end Store

end Pfs3
