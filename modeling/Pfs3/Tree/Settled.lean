import Mathlib.Data.List.Nodup
import Mathlib.Data.List.Perm.Subperm
import Pfs3.Tree.Overwrite

/-!
# The directory tree

Between two calls the queue of pending writes is empty, every entry stands for one object, and
every object but the root has one entry.
-/

namespace Pfs3

open ByteList Stop

/-! ## Trees -/

/-- The kinds of the objects (`true` for directories) and the entries of the directories form
a forest: an entry has an object of its kind, and no object has two entries. -/
structure Forest (K : ℕ → Option Bool) (L : ℕ → List Entry) : Prop where
  root : K ANODE_ROOTDIR = some true
  entry : ∀ {p e}, e ∈ L p → K e.anode.toNat = some e.isDir ∧ e.anode.toNat ≠ ANODE_ROOTDIR
  nodup : ∀ p, ((L p).map Entry.anode).Nodup
  parent : ∀ {p q e e'}, e ∈ L p → e' ∈ L q → e.anode = e'.anode → p = q

namespace Forest

variable {K : ℕ → Option Bool} {L L' : ℕ → List Entry} {p nr : ℕ} {e e' : Entry}
variable {l₁ l₂ : List Entry}

theorem mem_middle {x : Entry} : x ∈ l₁ ++ e :: l₂ ↔ x = e ∨ x ∈ l₁ ++ l₂ := by
  simp only [List.mem_append, List.mem_cons]
  tauto

theorem nodup_middle : ((l₁ ++ e :: l₂).map Entry.anode).Nodup ↔
    (∀ x ∈ l₁ ++ l₂, x.anode ≠ e.anode) ∧ ((l₁ ++ l₂).map Entry.anode).Nodup := by
  rw [List.map_append, List.map_cons, List.nodup_middle, List.nodup_cons, ← List.map_append,
    List.mem_map]
  constructor
  · rintro ⟨h₁, h₂⟩
    exact ⟨fun x hx heq => h₁ ⟨x, hx, heq⟩, h₂⟩
  · rintro ⟨h₁, h₂⟩
    exact ⟨fun ⟨x, hx, heq⟩ => h₁ x hx heq, h₂⟩

/-- A new object gets an entry. -/
theorem add (h : Forest K L) (hnr : e.anode.toNat = nr) (hnew : K nr = none)
    (hp : L p = l₁ ++ l₂) (hp' : L' p = l₁ ++ e :: l₂) (hother : ∀ q, q ≠ p → L' q = L q) :
    Forest (Function.update K nr (some e.isDir)) L' := by
  have hold : ∀ {q x}, x ∈ L q → x.anode.toNat ≠ nr := by
    intro q x hx heq
    have := (h.entry hx).1
    rw [heq, hnew] at this
    cases this
  have hmem : ∀ {q x}, x ∈ L' q → (x = e ∧ q = p) ∨ x ∈ L q := by
    intro q x hx
    by_cases hq : q = p
    · subst hq
      rw [hp', mem_middle] at hx
      rcases hx with hx | hx
      · exact Or.inl ⟨hx, rfl⟩
      · exact Or.inr (hp ▸ hx)
    · exact Or.inr (hother q hq ▸ hx)
  have hroot : nr ≠ ANODE_ROOTDIR := by
    rintro rfl
    rw [h.root] at hnew
    cases hnew
  refine ⟨?_, fun {q x} hx => ?_, fun q => ?_, fun {q q' x x'} hx hx' heq => ?_⟩
  · rw [Function.update_of_ne hroot.symm]
    exact h.root
  · rcases hmem hx with ⟨rfl, -⟩ | hx
    · rw [hnr, Function.update_self]
      exact ⟨rfl, hroot⟩
    · rw [Function.update_of_ne (hold hx)]
      exact h.entry hx
  · by_cases hq : q = p
    · subst hq
      rw [hp', nodup_middle, ← hp]
      exact ⟨fun x hx heq => hold hx (heq ▸ hnr), h.nodup q⟩
    · rw [hother q hq]
      exact h.nodup q
  · rcases hmem hx with ⟨rfl, rfl⟩ | hx <;> rcases hmem hx' with ⟨rfl, rfl⟩ | hx'
    · rfl
    · exact absurd (heq ▸ hnr) (hold hx')
    · exact absurd (heq.symm ▸ hnr) (hold hx)
    · exact h.parent hx hx' heq

/-- The object of an entry goes, and its entry with it. -/
theorem remove (h : Forest K L) (hp : L p = l₁ ++ e :: l₂) (hp' : L' p = l₁ ++ l₂)
    (hother : ∀ q, q ≠ p → L' q = L q ∨ L' q = []) :
    Forest (Function.update K e.anode.toNat none) L' := by
  have he : e ∈ L p := by rw [hp]; exact mem_middle.mpr (Or.inl rfl)
  have hmem : ∀ {q x}, x ∈ L' q → x ∈ L q ∧ x.anode ≠ e.anode := by
    intro q x hx
    by_cases hq : q = p
    · subst hq
      rw [hp'] at hx
      have hnodup := h.nodup q
      rw [hp, nodup_middle] at hnodup
      exact ⟨by rw [hp]; exact mem_middle.mpr (Or.inr hx), hnodup.1 x hx⟩
    · rcases hother q hq with hq' | hq'
      · rw [hq'] at hx
        exact ⟨hx, fun heq => hq (h.parent hx he heq)⟩
      · rw [hq'] at hx
        cases hx
  refine ⟨?_, fun {q x} hx => ?_, fun q => ?_, fun {q q' x x'} hx hx' heq =>
    h.parent (hmem hx).1 (hmem hx').1 heq⟩
  · rw [Function.update_of_ne (h.entry he).2.symm]
    exact h.root
  · obtain ⟨hx, hne⟩ := hmem hx
    rw [Function.update_of_ne fun heq => hne (UInt32.toNat_inj.mp heq)]
    exact h.entry hx
  · by_cases hq : q = p
    · subst hq
      have hnodup := h.nodup q
      rw [hp, nodup_middle] at hnodup
      rw [hp']
      exact hnodup.2
    · rcases hother q hq with hq' | hq'
      · rw [hq']
        exact h.nodup q
      · rw [hq']
        exact List.nodup_nil

/-- An entry changes, but not its object. -/
theorem change (h : Forest K L) (hp : L p = l₁ ++ e :: l₂) (hp' : L' p = l₁ ++ e' :: l₂)
    (hanode : e'.anode = e.anode) (hdir : e'.isDir = e.isDir) (hother : ∀ q, q ≠ p → L' q = L q) :
    Forest K L' := by
  have hmem : ∀ {q x}, x ∈ L' q → ∃ y ∈ L q, y.anode = x.anode ∧ y.isDir = x.isDir := by
    intro q x hx
    by_cases hq : q = p
    · subst hq
      rw [hp', mem_middle] at hx
      rcases hx with rfl | hx
      · exact ⟨e, by rw [hp]; exact mem_middle.mpr (Or.inl rfl), hanode.symm, hdir.symm⟩
      · exact ⟨x, by rw [hp]; exact mem_middle.mpr (Or.inr hx), rfl, rfl⟩
    · exact ⟨x, hother q hq ▸ hx, rfl, rfl⟩
  refine ⟨h.root, fun {q x} hx => ?_, fun q => ?_, fun {q q' x x'} hx hx' heq => ?_⟩
  · obtain ⟨y, hy, hya, hyd⟩ := hmem hx
    rw [← hya, ← hyd]
    exact h.entry hy
  · by_cases hq : q = p
    · subst hq
      have hnodup := h.nodup q
      rw [hp, nodup_middle] at hnodup
      rw [hp', nodup_middle, hanode]
      exact hnodup
    · rw [hother q hq]
      exact h.nodup q
  · obtain ⟨y, hy, hya, -⟩ := hmem hx
    obtain ⟨y', hy', hya', -⟩ := hmem hx'
    exact h.parent hy hy' (hya.trans (heq.trans hya'.symm))

/-- An entry moves. -/
theorem move (h : Forest K L) {s d : ℕ} {L₁ : ℕ → List Entry} {k₁ k₂ : List Entry}
    (hs : L s = l₁ ++ e :: l₂) (hs' : L₁ s = l₁ ++ l₂) (hother : ∀ q, q ≠ s → L₁ q = L q)
    (hd : L₁ d = k₁ ++ k₂) (hd' : L' d = k₁ ++ e' :: k₂) (hother' : ∀ q, q ≠ d → L' q = L₁ q)
    (hanode : e'.anode = e.anode) (hdir : e'.isDir = e.isDir) : Forest K L' := by
  have he : e ∈ L s := by rw [hs]; exact mem_middle.mpr (Or.inl rfl)
  have hrem := h.remove hs hs' fun q hq => Or.inl (hother q hq)
  have hadd := @Forest.add _ _ L' d e.anode.toNat e' k₁ k₂ hrem (by rw [hanode])
    (Function.update_self _ _ _) hd hd' hother'
  have hK : Function.update (Function.update K e.anode.toNat none) e.anode.toNat (some e'.isDir) = K := by
    rw [Function.update_idem, hdir, ← (h.entry he).1, Function.update_eq_self]
  rw [hK] at hadd
  exact hadd

end Forest

/-! ## Reading chains -/

namespace Meta

variable {m : Meta}

/-- Chains of different anodes are short. -/
theorem length_le_of_nodup {l : List Anode}
    (hindex : ∀ s, m.index s ≠ 0 → s < 253) (hnodup : (l.map Anode.nr).Nodup)
    (hget : ∀ a ∈ l, m.getAnode a.nr = .ok a) : l.length ≤ 253 * 84 := by
  have hsub : l.map Anode.nr ⊆ (List.range 253).flatMap fun s =>
      (List.range 84).map fun off => s * 65536 + off := by
    intro nr hnr
    obtain ⟨a, ha, rfl⟩ := List.mem_map.mp hnr
    obtain ⟨h₁, h₂, -⟩ := getAnode_ok (hget a ha)
    have hslots : SLOTS = 84 := rfl
    exact List.mem_flatMap.mpr ⟨a.nr / 65536, List.mem_range.mpr (hindex _ h₁),
      List.mem_map.mpr ⟨a.nr % 65536, List.mem_range.mpr (by omega), by omega⟩⟩
  have hle := (List.subperm_of_subset hnodup hsub).length_le
  have hrow : ((List.range 253).map fun s =>
      ((List.range 84).map fun off => s * 65536 + off).length) = List.replicate 253 84 := by
    refine List.eq_replicate_iff.mpr ⟨by rw [List.length_map, List.length_range], fun b hb => ?_⟩
    obtain ⟨s, -, rfl⟩ := List.mem_map.mp hb
    rw [List.length_map, List.length_range]
  rw [List.length_map, List.length_flatMap, hrow, List.sum_replicate_nat] at hle
  exact hle

theorem getChainLoop_of_linked : ∀ {l : List Anode} {nr n : ℕ} {seen : List ℕ},
    m.Linked nr l → l.length ≤ n → (l.map Anode.nr).Nodup → (∀ a ∈ l, a.nr ∉ seen) →
    m.getChainLoop n seen nr = .ok l
  | [], nr, n, seen, hl, _, _, _ => by
      have hnr : nr = ANODE_EOF := hl
      cases n <;> exact if_pos hnr
  | a :: l, nr, 0, seen, hl, hn, _, _ => absurd hn (by rw [List.length_cons]; omega)
  | a :: l, nr, n + 1, seen, hl, hn, hnodup, hseen => by
      have hnr := hl.head
      rw [List.map_cons, List.nodup_cons] at hnodup
      have hrest := @getChainLoop_of_linked l a.next n (nr :: seen) hl.2.2
        (by rw [List.length_cons] at hn; omega) hnodup.2 fun b hb hmem => by
          rcases List.mem_cons.mp hmem with heq | hmem
          · exact hnodup.1 (List.mem_map.mpr ⟨b, hb, heq.trans hnr.symm⟩)
          · exact hseen b (List.mem_cons_of_mem a hb) hmem
      unfold getChainLoop
      rw [if_neg hl.1, if_neg (hnr ▸ hseen a List.mem_cons_self), hl.2.1, ok_bind, hrest]
      rfl

end Meta

namespace Store

variable {S S' S₁ : Store} {T T' : Owners}

/-- The kinds of the objects. -/
def kinds (T : Owners) (h : ℕ) : Option Bool := (T h).map Node.isDir

/-- The entries of the object `p`, none for a file. -/
def entriesOf (m : Meta) (T : Owners) (p : ℕ) : List Entry :=
  match T p with
  | some n => if n.isDir then m.listing n.blocks else []
  | none => []

theorem entriesOf_dir {m : Meta} {p : ℕ} {n : Node} (hp : T p = some n) (hdir : n.isDir = true) :
    entriesOf m T p = m.listing n.blocks := by
  rw [entriesOf, hp]
  exact if_pos hdir

theorem entriesOf_none {m : Meta} {p : ℕ} (hp : T p = none) : entriesOf m T p = [] := by
  rw [entriesOf, hp]

theorem entriesOf_file {m : Meta} {p : ℕ} {n : Node} (hp : T p = some n) (hdir : n.isDir = false) :
    entriesOf m T p = [] := by
  rw [entriesOf, hp]
  exact if_neg (by rw [hdir]; decide)

/-- A directory whose blocks did not change. -/
theorem entriesOf_congr {m m' : Meta} {p : ℕ} (hT : T' p = T p)
    (h : ∀ n, T p = some n → n.isDir = true → ∀ b ∈ n.blocks, m'.dir b = m.dir b) :
    entriesOf m' T' p = entriesOf m T p := by
  unfold entriesOf
  rw [hT]
  cases hp : T p with
  | none => rfl
  | some n =>
      dsimp only
      by_cases hd : n.isDir = true
      · rw [if_pos hd, if_pos hd, Meta.listing_congr (h n hp hd)]
      · rw [if_neg hd, if_neg hd]

/-- The volume between two calls. -/
structure Settled (S : Store) (T : Owners) : Prop where
  owned : S.Owned T []
  disk : S.disk = S.live
  forest : Forest (kinds T) (entriesOf S.live T)
  counters : S.root.blocksfree = S.blocksfree ∧ S.root.reservedFree = S.reservedFree ∧
    S.root.resFree = S.resFree

namespace Settled

theorem linked (h : S.Settled T) {p : ℕ} {n : Node} (hp : T p = some n) :
    S.disk.Linked p n.chain := by
  rw [h.disk]
  exact h.owned.linked hp

theorem node (h : S.Settled T) {p : ℕ} {e : Entry} (he : e ∈ entriesOf S.live T p) :
    ∃ n, T e.anode.toNat = some n ∧ n.isDir = e.isDir := by
  have hk := (h.forest.entry he).1
  unfold kinds at hk
  obtain ⟨n, hn, hd⟩ := Option.map_eq_some_iff.mp hk
  exact ⟨n, hn, hd⟩

theorem root (h : S.Settled T) : ∃ n, T ANODE_ROOTDIR = some n ∧ n.isDir = true := by
  obtain ⟨n, hn, hd⟩ := Option.map_eq_some_iff.mp h.forest.root
  exact ⟨n, hn, hd⟩

/-- The counters on the device are what there is to count. -/
theorem countFree (h : S.Settled T) :
    ((List.range S.geo.dataBlocks).filter S.disk.free).length = S.root.blocksfree := by
  rw [h.counters.1, h.owned.sane.blocks, freeBlocks, h.disk]

theorem countReserved (h : S.Settled T) :
    ((List.range S.geo.numreserved).filter S.root.resFree).length = S.root.reservedFree := by
  rw [h.counters.2.1, h.owned.sane.reserved, freeReserved, h.counters.2.2]

end Settled

/-- The chain of an object can be read. -/
theorem Settled.getChain (h : S.Settled T) {p : ℕ} {n : Node} (hp : T p = some n) :
    S.disk.getChain p = .ok n.chain := by
  have hl := h.linked hp
  have hnodup := h.owned.anode_nodup hp
  have hlen := Meta.length_le_of_nodup (m := S.disk) (fun s hs => by
    rw [h.disk] at hs
    exact (h.owned.sane.index s hs).1) hnodup fun a ha => hl.mem ha
  have hmax : MAX_CHAIN_LEN = 1000000 := rfl
  exact Meta.getChainLoop_of_linked hl (by omega) hnodup fun _ _ => List.not_mem_nil

theorem Settled.listEntries {p : ℕ} {n : Node} (h : S.Settled T) (hp : T p = some n)
    (hdir : n.isDir = true) {chain : List Anode} (hc : S.disk.getChain p = .ok chain) :
    S.disk.listEntries p = .ok (entriesOf S.live T p) := by
  have hl := (Meta.linked_of_getChain hc).1
  obtain rfl := hl.unique (h.linked hp)
  unfold Meta.listEntries
  rw [hc, ok_bind, entriesOf_dir hp hdir, h.disk]
  exact Meta.listBlocks_ok fun b hb => h.owned.content hp hdir hb

/-- The run that lists a directory. -/
theorem Settled.listDir_run {p : ℕ} {n : Node} (h : S.Settled T) (hp : T p = some n)
    (hdir : n.isDir = true) : listDir p S = .ok (entriesOf S.live T p) S := by
  have hrun : listDir p S = (liftM (S.disk.listEntries p) : StoreM _) S := rfl
  rw [hrun, h.listEntries hp hdir (h.getChain hp)]
  rfl

/-- Listing a directory on the device. -/
theorem post_listDir {p : ℕ} {n : Node} (h : S.Settled T) (hp : T p = some n)
    (hdir : n.isDir = true) :
    Post (listDir p) (fun es S' => S' = S ∧ es = entriesOf S.live T p) anyError S :=
  post_of_ok (h.listDir_run hp hdir) ⟨rfl, rfl⟩

/-! ## Attempts -/

theorem readOnly_lift {α : Type} (e : Reader α) : ReadOnly (liftM e : StoreM α) := by
  cases e with
  | ok a => exact readOnly_pure a
  | error f => exact readOnly_throw f

theorem readOnly_onDisk {α : Type} (f : Meta → Reader α) : ReadOnly (onDisk f) :=
  readOnly_get.bind fun S => readOnly_lift (f S.disk)

theorem readOnly_findDirEntryLoop (name : Name) (blks : List ℕ) :
    ReadOnly (findDirEntryLoop name blks) := by
  induction blks with
  | nil => exact readOnly_throw _
  | cons b rest ih =>
      unfold findDirEntryLoop
      refine (readOnly_get.bind fun S => readOnly_lift _ : ReadOnly (readDir b)).bind fun d => ?_
      cases d.entries.findIdx? fun e => nameEqCi e.text name with
      | some i => exact readOnly_pure _
      | none => exact ih

theorem readOnly_findDirEntry (dirAnode : ℕ) (name : Name) :
    ReadOnly (findDirEntry dirAnode name) :=
  (readOnly_onDisk _).bind fun _ => readOnly_findDirEntryLoop name _

/-- An attempt that changes nothing. -/
theorem post_tryOk {α : Type} {m : StoreM α} {Q : α → Store → Prop} (hm : ReadOnly m)
    (h : Post m Q anyError S) :
    Post (tryOk m) (fun o S' => S' = S ∧ ∀ a, o = some a → Q a S) anyError S := by
  have hread := hm S
  unfold Post at h ⊢
  unfold tryOk
  rcases hrun : m S with ⟨a, S'⟩ | ⟨e | _, S'⟩ <;> rw [hrun] at h hread
  · have hS : S' = S := hread
    subst hS
    refine ⟨rfl, fun b hb => ?_⟩
    cases hb
    exact h
  · cases e with
    | err e => exact ⟨hread, fun b hb => by cases hb⟩
    | panic => exact trivial
  · exact h.elim

/-! ## Paths -/

/-- The descent along a path stays among the directories. -/
theorem post_descend (h : S.Settled T) (parts : List Name) : ∀ {p : ℕ},
    kinds T p = some true →
    Post (descend p parts) (fun q S' => S' = S ∧ kinds T q = some true) anyError S := by
  induction parts with
  | nil => exact fun hp => post_pure ⟨rfl, hp⟩
  | cons part rest ih =>
      intro p hp
      obtain ⟨n, hn, hd⟩ := Option.map_eq_some_iff.mp hp
      unfold descend
      refine (post_listDir h hn hd).seq ?_
      rintro es S₀ ⟨hS, rfl⟩
      obtain rfl : S = S₀ := hS.symm
      cases hf : (entriesOf S.live T p).find? fun e => nameEqCi e.text part && e.isDir with
      | none => exact post_fail
      | some e =>
          have hmem := List.mem_of_find?_eq_some hf
          have hpred := List.find?_some hf
          rw [Bool.and_eq_true] at hpred
          refine ih ?_
          rw [(h.forest.entry hmem).1, hpred.2]

/-- The parent that `split_path` returns is a directory. -/
theorem post_splitPath (h : S.Settled T) (path : Name) :
    Post (splitPath path) (fun r S' => S' = S ∧ kinds T r.1 = some true) anyError S := by
  unfold splitPath
  dsimp only
  cases (pathParts path).getLast? with
  | none => exact post_fail
  | some filename =>
      refine (post_descend h _ h.forest.root).seq ?_
      rintro q S₀ ⟨hS, hq⟩
      exact post_pure ⟨hS, hq⟩

/-! ## Commit -/

/-- A commit makes the queue the device content. -/
structure Committed (S S' : Store) : Prop where
  geo : S'.geo = S.geo
  live : S'.live = S.live
  disk : S'.disk = S.live
  resFree : S'.resFree = S.resFree
  blocksfree : S'.blocksfree = S.blocksfree
  reservedFree : S'.reservedFree = S.reservedFree
  data : S'.data = S.data
  root : S'.root.blocksfree = S'.blocksfree ∧ S'.root.reservedFree = S'.reservedFree ∧
    S'.root.resFree = S'.resFree

theorem post_updateRootblock : Post updateRootblock (fun _ S' => Committed S S') anyError S := by
  unfold updateRootblock
  refine post_modify ?_
  refine post_nextDatestamp.seq ?_
  rintro ds _ ⟨rfl, -⟩
  exact ⟨rfl, rfl, rfl, rfl, rfl, rfl, rfl, rfl, rfl, rfl⟩

theorem Committed.owned (hc : Committed S S') {held : List ℕ} (h : S.Owned T held) :
    S'.Owned T held := by
  have hsane : S'.Sane := by
    refine ⟨?_, ?_, fun s _ => by rw [hc.disk, hc.live], ?_, ?_, ?_⟩
    · rw [hc.resFree, hc.geo, hc.live]
      exact h.sane.reserve
    · rw [hc.resFree, hc.geo, hc.live]
      exact h.sane.index
    · unfold freeBlocks
      rw [hc.blocksfree, hc.geo, hc.live]
      exact h.sane.blocks
    · unfold freeReserved
      rw [hc.reservedFree, hc.geo, hc.resFree]
      exact h.sane.reserved
    · rw [hc.live, hc.geo]
      exact h.sane.bound
  have htaken : ∀ b, S.Taken b → S'.Taken b := by
    intro b hb
    unfold Taken
    rw [hc.geo, hc.live, hc.resFree]
    exact hb
  exact
    { sane := hsane
      linked := fun hn => hc.live ▸ h.linked hn
      used := h.used
      anode_inj := h.anode_inj
      anode_nodup := h.anode_nodup
      taken := fun hn hb => htaken _ (h.taken hn hb)
      kind := fun hn hb => hc.geo ▸ h.kind hn hb
      content := fun hn hd hb => hc.live ▸ h.content hn hd hb
      block_inj := h.block_inj
      block_nodup := h.block_nodup
      held_taken := fun b hb => htaken b (h.held_taken b hb)
      held_free := h.held_free
      held_nodup := h.held_nodup }

theorem Committed.settled (hc : Committed S S') (h : S.Owned T [])
    (hforest : Forest (kinds T) (entriesOf S.live T)) : S'.Settled T :=
  ⟨hc.owned h, by rw [hc.disk, hc.live], by rw [hc.live]; exact hforest, hc.root⟩

end Store

end Pfs3
