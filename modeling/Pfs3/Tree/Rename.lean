import Pfs3.Tree.Delete

/-!
# Renaming

`rename_in` deletes an object that has the new name, adds the new entry and then takes out the
first entry with the old name.  When that entry is one for the moved object, the object has one
entry again.
-/

namespace Pfs3

open ByteList Stop

/-! ## Entries for the same objects -/

namespace Forest

variable {K : ℕ → Option Bool} {L L' : ℕ → List Entry}

/-- What a forest sees of an entry. -/
def key (e : Entry) : UInt32 × Bool := (e.anode, e.isDir)

/-- The order of the entries, and everything but their objects, does not matter. -/
theorem perm (h : Forest K L) (hL : ∀ p, ((L' p).map key).Perm ((L p).map key)) : Forest K L' := by
  have hmem : ∀ {q x}, x ∈ L' q → ∃ y ∈ L q, y.anode = x.anode ∧ y.isDir = x.isDir := by
    intro q x hx
    obtain ⟨y, hy, hkey⟩ := List.mem_map.mp ((hL q).mem_iff.mp (List.mem_map_of_mem hx))
    exact ⟨y, hy, congrArg Prod.fst hkey, congrArg Prod.snd hkey⟩
  refine ⟨h.root, fun {q x} hx => ?_, fun q => ?_, fun {q q' x x'} hx hx' heq => ?_⟩
  · obtain ⟨y, hy, hya, hyd⟩ := hmem hx
    rw [← hya, ← hyd]
    exact h.entry hy
  · have hfst : ∀ l : List Entry, l.map Entry.anode = (l.map key).map Prod.fst := fun l => by
      rw [List.map_map]
      rfl
    rw [hfst]
    exact (((hL q).map Prod.fst).nodup_iff).mpr (hfst _ ▸ h.nodup q)
  · obtain ⟨y, hy, hya, -⟩ := hmem hx
    obtain ⟨y', hy', hya', -⟩ := hmem hx'
    exact h.parent hy hy' (hya.trans (heq.trans hya'.symm))

/-- Adding an entry for the object of `e` and taking out one of the two. -/
theorem exchange {l l' l₁ l₂ k₁ k₂ : List Entry} {e' x : Entry} {u : UInt32 × Bool}
    (hl : l = k₁ ++ k₂) (hmid : k₁ ++ e' :: k₂ = l₁ ++ x :: l₂) (hl' : l' = l₁ ++ l₂)
    (he' : key e' = u) (hx : key x = u) : (l'.map key).Perm (l.map key) := by
  have hmap : ∀ (a b : List Entry) (y : Entry), ((a ++ y :: b).map key).Perm
      (key y :: (a ++ b).map key) := fun a b y => by
    rw [List.map_append, List.map_cons, List.map_append]
    exact List.perm_middle
  have hperm := (hmap l₁ l₂ x).symm.trans ((congrArg (List.map key) hmid).symm ▸ hmap k₁ k₂ e')
  rw [he', hx, ← hl, ← hl'] at hperm
  exact (List.perm_cons u).mp hperm

end Forest

namespace Store

variable {S S' S₁ : Store} {T T' : Owners}

/-- Taking the first match out of a list with an inserted element. -/
theorem first_of_inserted {α : Type} {f : α → Bool} {k₁ k₂ l₁ l₂ : List α} {e e' x : α}
    (h : (k₁ ++ k₂).find? f = some e) (hmid : k₁ ++ e' :: k₂ = l₁ ++ x :: l₂) (hx : f x = true)
    (hl₁ : ∀ y ∈ l₁, f y = false) : x = e ∨ x = e' := by
  have hfind : (l₁ ++ x :: l₂).find? f = some x := find?_middle hx hl₁
  rw [← hmid, List.find?_append] at hfind
  rw [List.find?_append] at h
  cases hk : k₁.find? f with
  | some y =>
      rw [hk] at h hfind
      cases h
      cases hfind
      exact Or.inl rfl
  | none =>
      rw [hk, Option.none_or] at h hfind
      rw [List.find?_cons] at hfind
      split at hfind
      · cases hfind
        exact Or.inr rfl
      · rw [h] at hfind
        cases hfind
        exact Or.inl rfl

/-- The object of the first entry called `name` in `s` has the entry `e'` in `d` instead. -/
structure Moved (S S' : Store) (T T' : Owners) (s d : ℕ) (e e' : Entry) : Prop where
  settled : S'.Settled T'
  kinds : kinds T' = Store.kinds T
  dir : Store.kinds T d = some true
  others : ∀ q, q ≠ d → T' q = T q
  anode : e'.anode = e.anode
  old : e ∈ entriesOf S.live T s
  entries : ∀ q x, x ∈ entriesOf S'.live T' q → x ∈ entriesOf S.live T q ∨ (q = d ∧ x = e')
  stays : ∀ q x, x ∈ entriesOf S.live T q → x.anode ≠ e.anode → x ∈ entriesOf S'.live T' q
  unique : ∀ q x, x ∈ entriesOf S'.live T' q → x.anode = e.anode → q = d
  heads : Heads S S' T T' d none e'.size
  geo : S'.geo = S.geo
  data : S'.data = S.data

/-- The entry `e'` stands in `d`, unless it is there that `srcName` is looked for and finds it. -/
def Placed (S' : Store) (T' : Owners) (s : ℕ) (srcName : Name) (d : ℕ) (e' : Entry) : Prop :=
  (s = d → matchesName srcName e' = false) → e' ∈ entriesOf S'.live T' d

/-- The last part of `rename_in`. -/
theorem post_move {s d fsize prot : ℕ} {n m : Node} {srcName name : Name} {e : Entry}
    (h : S.Settled T) (hs : T s = some n) (hsd : n.isDir = true) (hd : T d = some m)
    (hdd : m.isDir = true) (he : (entriesOf S.live T s).find? (matchesName srcName) = some e) :
    Post (do
      addDirEntry d name e.entryType e.anode.toNat fsize prot
      removeDirEntry s srcName
      updateRootblock) (fun _ S' => ∃ T' now,
      Moved S S' T T' s d e (Entry.build now name e.entryType e.anode.toNat fsize prot) ∧
      Placed S' T' s srcName d (Entry.build now name e.entryType e.anode.toNat fsize prot))
      anyError S := by
  have hmem := List.mem_of_find?_eq_some he
  have hroom : S.Room 1 := Or.inr ⟨by omega, fun s => by rw [h.disk]⟩
  refine (post_addDirEntry h.owned hd hdd (h.linked hd) name e.entryType e.anode.toNat fsize prot
    fun _ _ => hroom).seq ?_
  rintro _ S₁ ⟨now, T₁, m', hadd⟩
  have hanode : (Entry.build now name e.entryType e.anode.toNat fsize prot).anode = e.anode := by
    rw [Entry.anode_build, UInt32.ofNat_toNat]
  have hisdir : (Entry.build now name e.entryType e.anode.toNat fsize prot).isDir = e.isDir :=
    Entry.isDir_rebuild e
  generalize hbuild : Entry.build now name e.entryType e.anode.toNat fsize prot = e' at hadd hanode hisdir
  obtain ⟨⟨k₁, k₂, hk, hk'⟩, hother⟩ := hadd.entriesOf h.owned hd hdd
  -- the source directory, whose chain on the device may be shorter by now
  obtain ⟨n', hn', hnd', hgrown⟩ : ∃ n', T₁ s = some n' ∧ n'.isDir = true ∧
      ∃ more, n'.blocks = n.blocks ++ more := by
    by_cases hsd' : s = d
    · subst hsd'
      rw [hd] at hs
      cases hs
      exact ⟨m', hadd.self, hadd.isDir, hadd.grown⟩
    · exact ⟨n, (hadd.others s hsd').trans hs, hsd, [], (List.append_nil _).symm⟩
  have hdisk : S₁.disk.Linked s n.chain := by
    rw [hadd.disk]
    exact h.linked hs
  refine (post_removeDirEntry hadd.owned hn' hnd' hdisk hgrown srcName).seq ?_
  rintro _ S₂ hedit
  refine post_updateRootblock.mono ?_ fun _ _ h => h
  rintro _ S₃ hc
  obtain ⟨⟨l₁, x, l₂, hl, hx, hl₁, hl'⟩, hother'⟩ := hedit.entriesOf hadd.owned hn' hnd'
  have hkinds : kinds T₁ = kinds T := by
    funext q
    unfold kinds
    by_cases hq : q = d
    · rw [hq, hadd.self, hd]
      exact congrArg some (hadd.isDir.trans hdd.symm)
    · rw [hadd.others q hq]
  -- the entry that went was one for the moved object
  have hxkey : Forest.key x = Forest.key e := by
    by_cases hsd' : s = d
    · subst hsd'
      rcases first_of_inserted (hk ▸ he) (hk'.symm.trans hl) hx hl₁ with rfl | rfl
      · rfl
      · exact Prod.ext hanode hisdir
    · rw [hother s hsd'] at hl
      rw [hl, find?_middle hx hl₁] at he
      cases he
      rfl
  have hperm : ∀ q, q ≠ s ∨ s = d → q ≠ d ∨ s = d →
      ((entriesOf S₂.live T₁ q).map Forest.key).Perm ((entriesOf S.live T q).map Forest.key) := by
    intro q hqs hqd
    by_cases hq : q = s
    · subst hq
      rcases hqs with hqs | rfl
      · exact absurd rfl hqs
      exact Forest.exchange hk (hk'.symm.trans hl) hl' (u := Forest.key e) (Prod.ext hanode hisdir)
        hxkey
    · have hqd' : q ≠ d := by
        rcases hqd with hqd | rfl
        · exact hqd
        · exact hq
      rw [hother' q hq, hother q hqd']
  have hforest : Forest (kinds T₁) (entriesOf S₂.live T₁) := by
    rw [hkinds]
    by_cases hsd' : s = d
    · exact h.forest.perm fun q => hperm q (Or.inr hsd') (Or.inr hsd')
    · have hxe : x = e := by
        rw [hother s hsd'] at hl
        rw [hl, find?_middle hx hl₁] at he
        cases he
        rfl
      subst hxe
      rw [hother s hsd'] at hl
      have hds : d ≠ s := fun heq => hsd' heq.symm
      refine @Forest.move _ _ _ _ _ _ _ h.forest s d
        (Function.update (entriesOf S.live T) s (l₁ ++ l₂)) k₁ k₂ hl (Function.update_self _ _ _)
        (fun q hq => Function.update_of_ne hq _ _) ?_ ?_ (fun q hq => ?_) hanode hisdir
      · rw [Function.update_of_ne hds]
        exact hk
      · rw [hother' d hds]
        exact hk'
      · by_cases hqs : q = s
        · rw [hqs, Function.update_self]
          exact hl'
        · rw [Function.update_of_ne hqs, hother' q hqs, hother q hq]
  have hin : ∀ q y, y ∈ entriesOf S₂.live T₁ q → y ∈ entriesOf S.live T q ∨ (q = d ∧ y = e') := by
    intro q y hy
    have hy₁ : y ∈ entriesOf S₁.live T₁ q := by
      by_cases hq : q = s
      · subst hq
        rw [hl'] at hy
        rw [hl]
        exact Forest.mem_middle.mpr (Or.inr hy)
      · rw [← hother' q hq]
        exact hy
    by_cases hq : q = d
    · subst hq
      rw [hk', Forest.mem_middle] at hy₁
      rcases hy₁ with rfl | hy₁
      · exact Or.inr ⟨rfl, rfl⟩
      · exact Or.inl (hk ▸ hy₁)
    · exact Or.inl (hother q hq ▸ hy₁)
  have hstill : ∀ q y, y ∈ entriesOf S.live T q → y.anode ≠ e.anode →
      y ∈ entriesOf S₂.live T₁ q := by
    intro q y hy hne
    have hy₁ : y ∈ entriesOf S₁.live T₁ q := by
      by_cases hq : q = d
      · subst hq
        rw [hk', Forest.mem_middle]
        exact Or.inr (hk ▸ hy)
      · rw [hother q hq]
        exact hy
    by_cases hq : q = s
    · subst hq
      rw [hl, Forest.mem_middle] at hy₁
      rcases hy₁ with rfl | hy₁
      · exact absurd (congrArg Prod.fst hxkey) hne
      · rw [hl']
        exact hy₁
    · rw [hother' q hq]
      exact hy₁
  have hgone : ∀ q y, y ∈ entriesOf S₂.live T₁ q → y.anode = e.anode → q = d := by
    intro q y hy heq
    rcases hin q y hy with hold | ⟨hq, -⟩
    · have hqs := h.forest.parent hold hmem heq
      by_cases hsd' : s = d
      · exact hqs.trans hsd'
      · have hnodup := h.forest.nodup s
        rw [← hother s hsd', hl, Forest.nodup_middle] at hnodup
        rw [hqs, hl'] at hy
        exact absurd (heq.trans (congrArg Prod.fst hxkey).symm) (hnodup.1 y hy)
    · exact hq
  have hplaced : Placed S₃ T₁ s srcName d e' := by
    intro hnot
    have hnew : e' ∈ entriesOf S₁.live T₁ d := by
      rw [hk', Forest.mem_middle]
      exact Or.inl rfl
    rw [hc.live]
    by_cases hsd' : s = d
    · subst hsd'
      rw [hl, Forest.mem_middle] at hnew
      rcases hnew with rfl | hnew
      · rw [hnot rfl] at hx
        cases hx
      · rw [hl']
        exact hnew
    · rw [hother' d fun heq => hsd' heq.symm]
      exact hnew
  have hcommit : ∀ b, SameHead S₁ S₃ b := fun b dir hdir => by
    rw [hc.live]
    exact hedit.heads b dir hdir
  have hheads : Heads S S₃ T T₁ d none e'.size := by
    intro q n₀ hq hdir b hb
    by_cases hqd : q = d
    · subst hqd
      rw [hadd.self] at hq
      cases hq
      rcases hadd.heads b hb with ⟨hbm, hsame⟩ | ⟨hno, dir, hdir', ha, hpar⟩
      · exact Or.inl ⟨m, hd, hdd, hbm, hsame.trans (hcommit b)⟩
      · obtain ⟨dir', hdir'', ha', hpar'⟩ := hcommit b dir hdir'
        exact Or.inr ⟨dir', hdir'', ha'.trans ha, hpar'.trans hpar, Or.inr ⟨rfl, m, hd, hno⟩⟩
    · have hq' : T q = some n₀ := (hadd.others q hqd).symm.trans hq
      have hbm : b ∉ m.blocks := fun hbm => hqd (h.owned.block_inj hq' hd hb hbm)
      have hsame : SameHead S S₁ b := fun dir hdir' =>
        ⟨dir, (hadd.dirs b (h.owned.taken hq' hb) hbm).trans hdir', rfl, rfl⟩
      exact Or.inl ⟨n₀, hq', hdir, hb, hsame.trans (hcommit b)⟩
  refine ⟨T₁, now, ?_⟩
  rw [hbuild]
  refine ⟨?_, hplaced⟩
  exact
    { settled := hc.settled hedit.owned hforest
      kinds := hkinds
      dir := by
        rw [Store.kinds, hd]
        exact congrArg some hdd
      others := hadd.others
      anode := hanode
      old := hmem
      entries := fun q y hy => hin q y (hc.live ▸ hy)
      stays := fun q y hy hne => by rw [hc.live]; exact hstill q y hy hne
      unique := fun q y hy heq => hgone q y (hc.live ▸ hy) heq
      heads := hheads
      geo := hc.geo.trans (hedit.geo.trans hadd.geo)
      data := hc.data.trans (hedit.data.trans hadd.data) }

/-- The state in which `rename_in` adds the new entry: an object of that name is deleted. -/
inductive Cleared (S S₁ : Store) (T T₁ : Owners) (d : ℕ) (name : Name) : Prop
  | kept (store : S₁ = S) (owners : T₁ = T) (run : ∀ S', deleteIn d name S ≠ .ok () S')
  | deleted (e : Entry) (l₁ l₂ : List Entry) (he : matchesName name e = true)
      (run : deleteIn d name S = .ok () S₁) (gone : Deleted S S₁ T d e l₁ l₂)
      (owners : T₁ = Function.update T e.anode.toNat none)

/-- The entries of `d` in that state: the first one of that name is gone. -/
inductive Vacated (S S₁ : Store) (T T₁ : Owners) (d : ℕ) (name : Name) : Prop
  | free (store : S₁ = S) (owners : T₁ = T)
      (none : ∀ x ∈ entriesOf S.live T d, matchesName name x = false)
  | first (e : Entry) (l₁ l₂ : List Entry) (he : matchesName name e = true)
      (first : ∀ x ∈ l₁, matchesName name x = false) (gone : Deleted S S₁ T d e l₁ l₂)
      (owners : T₁ = Function.update T e.anode.toNat none)

/-- What `rename_in` does in two directories, but not onto the entry itself. -/
theorem post_renameIn {s d : ℕ} {n m : Node} {srcName name : Name} (h : S.Settled T)
    (hs : T s = some n) (hsd : n.isDir = true) (hd : T d = some m) (hdd : m.isDir = true)
    (hself : ¬ (s = d ∧ nameEqCi srcName name = true)) :
    Post (renameIn s srcName d name) (fun _ S' => ∃ S₁ T₁ T' e now,
      (entriesOf S.live T s).find? (matchesName srcName) = some e ∧ Cleared S S₁ T T₁ d name ∧
      Vacated S S₁ T T₁ d name ∧
      Moved S₁ S' T₁ T' s d e (Entry.build now name e.entryType e.anode.toNat e.fileSize
        e.protection.toNat) ∧
      Placed S' T' s srcName d (Entry.build now name e.entryType e.anode.toNat e.fileSize
        e.protection.toNat)) anyError S := by
  unfold renameIn
  refine (post_listDir h hs hsd).seq ?_
  rintro es S₀ ⟨hS, rfl⟩
  obtain rfl : S = S₀ := hS.symm
  have hfun : ∀ name, (fun e : Entry => nameEqCi e.text name) = matchesName name := fun _ => rfl
  simp only [hfun]
  cases he : (entriesOf S.live T s).find? (matchesName srcName) with
  | none => exact post_fail
  | some e =>
      dsimp only
      have htry : tryOk (listDir d) S = .ok (some (entriesOf S.live T d)) S := by
        unfold tryOk
        rw [h.listDir_run hd hdd]
      refine (post_of_ok htry (Q := fun r S' => S' = S ∧ r = some (entriesOf S.live T d))
        ⟨rfl, rfl⟩).seq ?_
      rintro _ S₀ ⟨hS, rfl⟩
      obtain rfl : S = S₀ := hS.symm
      rw [Option.getD_some]
      split
      · refine (post_deleteIn h hd hdd name).run.seq ?_
        rintro _ S₁ ⟨⟨l₁, x, l₂, hx, hl₁, hdel⟩, hrun⟩
        -- the deleted object is neither the source directory nor the source entry
        have hmem := List.mem_of_find?_eq_some he
        have hsx : s ≠ x.anode.toNat := by
          intro heq
          rw [heq, hdel.empty] at hmem
          cases hmem
        have hs₁ : Function.update T x.anode.toNat none s = some n := by
          rw [Function.update_of_ne hsx, hs]
        have hd₁ : Function.update T x.anode.toNat none d = some m := by
          rw [Function.update_of_ne hdel.parent.symm, hd]
        have he₁ : (entriesOf S₁.live (Function.update T x.anode.toNat none) s).find?
            (matchesName srcName) = some e := by
          by_cases hsd' : s = d
          · subst hsd'
            have hxe : matchesName srcName x = false := by
              refine Bool.eq_false_iff.mpr fun hxs => hself ⟨rfl, ?_⟩
              unfold matchesName nameEqCi at hxs hx
              unfold nameEqCi
              rw [beq_iff_eq] at hxs hx ⊢
              exact hxs.symm.trans hx
            rw [hdel.old, List.find?_append, List.find?_cons, hxe] at he
            rw [hdel.entries, List.find?_append]
            exact he
          · rw [hdel.entries_other s hsd']
            exact he
        refine (post_move hdel.settled hs₁ hsd hd₁ hdd he₁).mono ?_ fun _ _ h => h
        rintro _ S' ⟨T', now, hmoved, hplaced⟩
        exact ⟨S₁, _, T', e, now, rfl, .deleted x l₁ l₂ hx hrun hdel rfl,
          .first x l₁ l₂ hx hl₁ hdel rfl, hmoved, hplaced⟩
      · rename_i hno
        have hfree : ∀ x ∈ entriesOf S.live T d, matchesName name x = false := fun x hx =>
          Bool.eq_false_iff.mpr fun hmatch => hno (List.any_eq_true.mpr ⟨x, hx, hmatch⟩)
        have hkept : ∀ S', deleteIn d name S ≠ .ok () S' := by
          intro S' hrun
          obtain ⟨l₁, x, l₂, hx, -, hdel⟩ := (post_deleteIn h hd hdd name).ok hrun
          have hmem : x ∈ entriesOf S.live T d := hdel.old ▸ Forest.mem_middle.mpr (Or.inl rfl)
          rw [hfree x hmem] at hx
          cases hx
        refine (post_move h hs hsd hd hdd he).mono ?_ fun _ _ h => h
        rintro _ S' ⟨T', now, hmoved, hplaced⟩
        exact ⟨S, T, T', e, now, rfl, .kept rfl rfl hkept, .free rfl rfl hfree, hmoved, hplaced⟩

end Store

end Pfs3
