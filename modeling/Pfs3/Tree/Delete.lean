import Pfs3.Tree.Create

/-!
# Deleting objects

A deletion takes the object of the first entry of that name out of the tree, and the entry
with it.
-/

namespace Pfs3

open ByteList Stop

namespace Store

variable {S S' S₁ : Store} {T T' : Owners}

/-- The object of the entry `e` of the directory `p` is gone, and `e` with it. -/
structure Deleted (S S' : Store) (T : Owners) (p : ℕ) (e : Entry) (l₁ l₂ : List Entry) : Prop where
  settled : S'.Settled (Function.update T e.anode.toNat none)
  old : entriesOf S.live T p = l₁ ++ e :: l₂
  parent : e.anode.toNat ≠ p
  empty : entriesOf S.live T e.anode.toNat = []
  entries : entriesOf S'.live (Function.update T e.anode.toNat none) p = l₁ ++ l₂
  entries_other : ∀ q, q ≠ p →
    entriesOf S'.live (Function.update T e.anode.toNat none) q = entriesOf S.live T q
  heads : ∀ b, SameHead S S' b
  geo : S'.geo = S.geo
  data : S'.data = S.data

theorem find?_middle {α : Type} {f : α → Bool} {l₁ l₂ : List α} {e : α} (he : f e = true)
    (hl : ∀ x ∈ l₁, f x = false) : (l₁ ++ e :: l₂).find? f = some e :=
  List.find?_eq_some_iff_append.mpr ⟨he, l₁, l₂, rfl, fun a ha => by rw [hl a ha]; rfl⟩

/-- The last part of a deletion, when the object is given up. -/
theorem post_removeEntry {p : ℕ} {n : Node} {name : Name} {target : Entry} (h : S.Settled T)
    (hp : T p = some n) (hdir : n.isDir = true)
    (htarget : (entriesOf S.live T p).find? (matchesName name) = some target)
    (hne : target.anode.toNat ≠ p) (hempty : entriesOf S.live T target.anode.toNat = [])
    (hown : S₁.Owned (Function.update T target.anode.toNat none) []) (hgeo : S₁.geo = S.geo)
    (hdisk : S₁.disk = S.disk) (hdirs : S₁.live.dir = S.live.dir) (hdata : S₁.data = S.data) :
    Post (do
      removeDirEntry p name
      updateRootblock) (fun _ S' => ∃ l₁ e l₂, matchesName name e = true ∧
      (∀ x ∈ l₁, matchesName name x = false) ∧ Deleted S S' T p e l₁ l₂) anyError S₁ := by
  have hp₁ : Function.update T target.anode.toNat none p = some n := by
    rw [Function.update_of_ne hne.symm, hp]
  have hdisk₁ : S₁.disk.Linked p n.chain := by
    rw [hdisk]
    exact h.linked hp
  refine (post_removeDirEntry hown hp₁ hdir hdisk₁ ⟨[], (List.append_nil _).symm⟩ name).seq ?_
  rintro _ S₂ hedit
  refine post_updateRootblock.mono ?_ fun _ _ h => h
  rintro _ S₃ hc
  obtain ⟨⟨l₁, e, l₂, hold, he, hl₁, hnew⟩, hother⟩ := hedit.entriesOf hown hp₁ hdir
  -- giving up the object did not change the other listings
  have hsame : ∀ q, entriesOf S₁.live (Function.update T target.anode.toNat none) q =
      entriesOf S.live T q := by
    intro q
    by_cases hq : q = target.anode.toNat
    · subst hq
      rw [hempty]
      exact entriesOf_none (Function.update_self _ _ _)
    · exact entriesOf_congr (Function.update_of_ne hq _ _) fun _ _ _ b _ => by rw [hdirs]
  rw [hsame] at hold
  have heq : target = e := by
    rw [hold, find?_middle he hl₁] at htarget
    cases htarget
    rfl
  subst heq
  have hforest : Forest (Function.update (kinds T) target.anode.toNat none)
      (entriesOf S₂.live (Function.update T target.anode.toNat none)) :=
    h.forest.remove hold hnew fun q hq => Or.inl ((hother q hq).trans (hsame q))
  rw [← kinds_none] at hforest
  refine ⟨l₁, target, l₂, he, hl₁,
    { settled := hc.settled hedit.owned hforest
      old := hold
      parent := hne
      empty := hempty
      entries := by rw [hc.live]; exact hnew
      entries_other := fun q hq => by rw [hc.live]; exact (hother q hq).trans (hsame q)
      heads := fun b d hd => ?_
      geo := hc.geo.trans (hedit.geo.trans hgeo)
      data := hc.data.trans (hedit.data.trans hdata) }⟩
  obtain ⟨d', hd', hhead⟩ := hedit.heads b d (by rw [hdirs]; exact hd)
  exact ⟨d', by rw [hc.live]; exact hd', hhead⟩

/-- What `delete_in` does in a directory. -/
theorem post_deleteIn {p : ℕ} {n : Node} (h : S.Settled T) (hp : T p = some n)
    (hdir : n.isDir = true) (name : Name) :
    Post (deleteIn p name) (fun _ S' => ∃ l₁ e l₂, matchesName name e = true ∧
      (∀ x ∈ l₁, matchesName name x = false) ∧ Deleted S S' T p e l₁ l₂) anyError S := by
  unfold deleteIn
  refine (post_listDir h hp hdir).seq ?_
  rintro es S₀ ⟨hS, rfl⟩
  obtain rfl : S = S₀ := hS.symm
  have hfun : (fun e : Entry => nameEqCi e.text name) = matchesName name := rfl
  rw [hfun]
  cases hf : (entriesOf S.live T p).find? (matchesName name) with
  | none => exact post_fail
  | some target =>
      have hmem := List.mem_of_find?_eq_some hf
      obtain ⟨m, hm, hmd⟩ := h.node hmem
      dsimp only
      by_cases hd : target.isDir = true
      · rw [if_pos hd]
        refine Post.assoc ((post_listDir h hm (hmd.trans hd)).seq ?_)
        rintro sub S₀ ⟨hS, rfl⟩
        obtain rfl : S = S₀ := hS.symm
        by_cases hsub : (entriesOf S.live T target.anode.toNat).isEmpty = true
        · rw [if_pos hsub]
          have hempty := List.isEmpty_iff.mp hsub
          have hne : target.anode.toNat ≠ p := by
            intro heq
            rw [heq] at hempty
            rw [hempty] at hmem
            cases hmem
          refine (post_freeAnodeChainReserved h.owned hm (hmd.trans hd)
            (h.linked hm)).seq ?_
          rintro _ S₁ ⟨hown₁, ht₁⟩
          refine (post_clearAnodeChain hown₁ (ht₁.disk ▸ h.linked hm) (h.owned.released hm)).seq ?_
          rintro _ S₂ ⟨hown₂, hs₂⟩
          exact post_removeEntry h hp hdir hf hne hempty hown₂ (hs₂.geo.trans ht₁.geo)
            (hs₂.disk.trans ht₁.disk) (hs₂.dir.trans ht₁.dir) (hs₂.data.trans ht₁.data)
        · rw [if_neg hsub]
          exact post_fail
      · rw [if_neg hd]
        have hmf : m.isDir = false := hmd.trans (Bool.eq_false_iff.mpr hd)
        have hempty : entriesOf S.live T target.anode.toNat = [] := entriesOf_file hm hmf
        have hne : target.anode.toNat ≠ p := by
          intro heq
          rw [heq, hp] at hm
          cases hm
          rw [hdir] at hmf
          cases hmf
        refine (post_freeDataBlocks h.owned hm hmf (h.linked hm)).seq ?_
        rintro _ S₁ ⟨hown₁, ht₁⟩
        refine (post_clearAnodeChain hown₁ (ht₁.disk ▸ h.linked hm) (h.owned.released hm)).seq ?_
        rintro _ S₂ ⟨hown₂, hs₂⟩
        exact post_removeEntry h hp hdir hf hne hempty hown₂ (hs₂.geo.trans ht₁.geo)
          (hs₂.disk.trans ht₁.disk) (hs₂.dir.trans ht₁.dir) (hs₂.data.trans ht₁.data)

end Store

end Pfs3
