import Mathlib.Data.List.Nodup
import Pfs3.Walk.Depth

/-!
# What a clean verdict says

When a scan ends without errors and warnings it has recorded the blocks of every directory and
file entry that can be reached from the root, each block once.
-/

namespace Pfs3

open ByteList BlockCache Stop

/-! ## Recorded blocks -/

namespace Check

/-- An entry that the scan met: its directory, its position there, and its chain's blocks. -/
structure Visit where
  dir : ℕ
  pos : ℕ
  blocks : List ℕ

/-- The findings `c'` are `c` with the blocks of the visits `V`, none of them twice. -/
structure Adds (c c' : Ctx) (V : List Visit) : Prop where
  used : ∀ b, (c'.usedBlocks.lookup b).isSome ↔
    (c.usedBlocks.lookup b).isSome ∨ ∃ x ∈ V, b ∈ x.blocks
  nodup : (V.flatMap Visit.blocks).Nodup
  fresh : ∀ x ∈ V, ∀ b ∈ x.blocks, (c.usedBlocks.lookup b).isSome = false

theorem Adds.refl (c : Ctx) : Adds c c [] :=
  ⟨by simp, by simp, by simp⟩

theorem Adds.trans {c c₁ c₂ : Ctx} {V₁ V₂ : List Visit} (h₁ : Adds c c₁ V₁) (h₂ : Adds c₁ c₂ V₂) :
    Adds c c₂ (V₁ ++ V₂) where
  used b := by
    rw [h₂.used, h₁.used, or_assoc]
    simp only [List.mem_append, or_and_right, exists_or]
  nodup := by
    rw [List.flatMap_append, List.nodup_append]
    refine ⟨h₁.nodup, h₂.nodup, ?_⟩
    rintro b hb b' hb' rfl
    obtain ⟨x, hx, hbx⟩ := List.mem_flatMap.mp hb
    obtain ⟨y, hy, hby⟩ := List.mem_flatMap.mp hb'
    have hfresh := h₂.fresh y hy b hby
    rw [(h₁.used b).mpr (Or.inr ⟨x, hx, hbx⟩)] at hfresh
    cases hfresh
  fresh x hx b hb := by
    rcases List.mem_append.mp hx with hx | hx
    · exact h₁.fresh x hx b hb
    · have hfresh := h₂.fresh x hx b hb
      by_contra hc
      have hused := (h₁.used b).mpr (Or.inl (by simpa using hc))
      rw [hused] at hfresh
      cases hfresh

theorem isSome_lookup_recordBlock (owner : Name) (c : Ctx) (b k : ℕ) :
    ((Ctx.recordBlock owner c b).usedBlocks.lookup k).isSome ↔
      (c.usedBlocks.lookup k).isSome ∨ k = b := by
  have hused : (Ctx.recordBlock owner c b).usedBlocks =
      (b, owner) :: c.usedBlocks.filter fun p => p.1 != b := by
    unfold Ctx.recordBlock
    dsimp only
    split <;> rfl
  rw [hused, List.lookup_cons, lookup_filter_ne]
  by_cases hk : k = b
  · simp [hk]
  · have hkb : (k == b) = false := by simpa using hk
    simp [hk, hkb]

theorem errors_recordBlock (owner : Name) (c : Ctx) (b : ℕ) :
    (Ctx.recordBlock owner c b).errors =
      if (c.usedBlocks.lookup b).isSome then c.errors + 1 else c.errors := by
  unfold Ctx.recordBlock Ctx.error
  dsimp only
  split <;> rfl

theorem warnings_recordBlock (owner : Name) (c : Ctx) (b : ℕ) :
    (Ctx.recordBlock owner c b).warnings = c.warnings := by
  unfold Ctx.recordBlock Ctx.error
  dsimp only
  split <;> rfl

theorem warnings_recordBlocks (owner : Name) (blocks : List ℕ) : ∀ c : Ctx,
    (Ctx.recordBlocks blocks owner c).warnings = c.warnings := by
  induction blocks with
  | nil => exact fun _ => rfl
  | cons b blocks ih => exact fun c => (ih _).trans (warnings_recordBlock owner c b)

/-- A part of a scan: it counts errors and warnings up, and when it counts none it records
visits with the property `P`. -/
def Covers (v : Volume) (P : List Visit → Prop) (m : ScanM Unit) : Prop :=
  ∀ s s', v.Like s.vol → m s = .ok () s' → v.Like s'.vol ∧ s.ctx.errors ≤ s'.ctx.errors ∧
    s.ctx.warnings ≤ s'.ctx.warnings ∧
    (s'.ctx.errors = s.ctx.errors → s'.ctx.warnings = s.ctx.warnings →
      ∃ V, P V ∧ Adds s.ctx s'.ctx V)

namespace Covers

variable {v : Volume} {P Q : List Visit → Prop}

theorem pure : Covers v (· = []) (Pure.pure ()) := by
  intro s s' hs hrun
  cases hrun
  exact ⟨hs, le_rfl, le_rfl, fun _ _ => ⟨[], rfl, .refl _⟩⟩

/-- A finding that is no error and no claim on blocks. -/
theorem note {f : Ctx → Ctx} (hf : ∀ c, c.errors ≤ (f c).errors ∧ c.warnings ≤ (f c).warnings ∧
    (f c).usedBlocks = c.usedBlocks) : Covers v (· = []) (Check.note f) := by
  intro s s' hs hrun
  cases hrun
  obtain ⟨herr, hwarn, hused⟩ := hf s.ctx
  refine ⟨hs, herr, hwarn, fun _ _ => ⟨[], rfl, ?_, by simp, by simp⟩⟩
  simp [hused]

theorem error : Covers v (fun _ => False) (Check.note Ctx.error) := by
  intro s s' hs hrun
  cases hrun
  exact ⟨hs, Nat.le_succ _, le_rfl, fun h => absurd h (Nat.succ_ne_self _)⟩

theorem seq {m k : ScanM Unit} (hm : Covers v P m) (hk : Covers v Q k) :
    Covers v (fun V => ∃ V₁ V₂, V = V₁ ++ V₂ ∧ P V₁ ∧ Q V₂) (do m; k) := by
  intro s s' hs hrun
  obtain ⟨⟨⟩, s₁, hrun₁, hrun₂⟩ := of_bind_eq_ok hrun
  obtain ⟨hs₁, herr₁, hwarn₁, hadds₁⟩ := hm s s₁ hs hrun₁
  obtain ⟨hs', herr₂, hwarn₂, hadds₂⟩ := hk s₁ s' hs₁ hrun₂
  refine ⟨hs', herr₁.trans herr₂, hwarn₁.trans hwarn₂, fun herr hwarn => ?_⟩
  obtain ⟨V₁, hP, h₁⟩ := hadds₁ (by omega) (by omega)
  obtain ⟨V₂, hQ, h₂⟩ := hadds₂ (by omega) (by omega)
  exact ⟨V₁ ++ V₂, ⟨V₁, V₂, rfl, hP, hQ⟩, h₁.trans h₂⟩

theorem mono {m : ScanM Unit} (hm : Covers v P m) (hPQ : ∀ V, P V → Q V) : Covers v Q m := by
  intro s s' hs hrun
  obtain ⟨hs', herr, hwarn, hadds⟩ := hm s s' hs hrun
  refine ⟨hs', herr, hwarn, fun he hw => ?_⟩
  obtain ⟨V, hP, h⟩ := hadds he hw
  exact ⟨V, hPQ V hP, h⟩

theorem ask {α : Type} {m : VolumeM α} {k : Except Error α → ScanM Unit} (hm : Steady v.Like m)
    (hv : v.Opened) (hk : Covers v P (k (v.answer m))) : Covers v P (Check.ask m >>= k) := by
  obtain ⟨r, hr⟩ := hm
  intro s s' hs hrun
  cases r with
  | error e =>
      obtain ⟨v₀, hv₀, -⟩ := hr.raise hv.like
      obtain ⟨v', hm', hv'⟩ := hr.raise hs
      have hanswer : v.answer m = .error e := by simp only [Volume.answer, hv₀]
      have hask : Check.ask m s = .ok (.error e) { s with vol := v' } := by
        simp only [Check.ask, hm']
      rw [hanswer] at hk
      rw [bind_of_ok hask] at hrun
      exact hk ⟨v', s.ctx⟩ s' hv' hrun
  | ok a =>
      obtain ⟨b, v₀, hv₀, hb, -⟩ := hr.ok hv.like
      obtain ⟨c, v', hm', hc, hv'⟩ := hr.ok hs
      rw [hb] at hv₀
      rw [hc] at hm'
      have hanswer : v.answer m = .ok a := by simp only [Volume.answer, hv₀]
      have hask : Check.ask m s = .ok (.ok a) { s with vol := v' } := by
        simp only [Check.ask, hm']
      rw [hanswer] at hk
      rw [bind_of_ok hask] at hrun
      exact hk ⟨v', s.ctx⟩ s' hv' hrun

theorem checked {α : Type} {e : Except Fault α} {k : α → ScanM Unit}
    (hk : ∀ a, Covers v P (k a)) : Covers v P (Check.checked e >>= k) := by
  cases e with
  | error f =>
      intro s s' _ hrun
      cases hrun
  | ok a => exact hk a

/-- A loop over a list, entry by entry; `k` is the position of the first. -/
theorem forM {ι : Type} {f : ι → ScanM Unit} {P : ℕ → ι → List Visit → Prop} (l : List ι) :
    ∀ k : ℕ, (∀ j i, l[j]? = some i → Covers v (P (k + j) i) (f i)) →
    Covers v (fun V =>
      (∀ j i, l[j]? = some i → ∃ W, W ⊆ V ∧ P (k + j) i W) ∧
        ∀ x ∈ V, ∃ j i W, l[j]? = some i ∧ x ∈ W ∧ P (k + j) i W) (l.forM f) := by
  induction l with
  | nil =>
      refine fun k _ => Covers.pure.mono ?_
      rintro _ rfl
      exact ⟨by simp, by simp⟩
  | cons i l ih =>
      intro k h
      have hcast : ∀ j, k + 1 + j = k + (j + 1) := fun j => by omega
      have hrest := ih (k + 1) fun j i' hj => by
        rw [hcast]
        exact h (j + 1) i' hj
      refine ((h 0 i rfl).seq hrest).mono ?_
      rintro V ⟨V₁, V₂, rfl, hP, hall, hfrom⟩
      refine ⟨fun j i' hj => ?_, fun x hx => ?_⟩
      · rcases j with _ | j
        · cases hj
          exact ⟨V₁, List.subset_append_left _ _, hP⟩
        · obtain ⟨W, hW, hPW⟩ := hall j i' hj
          rw [hcast] at hPW
          exact ⟨W, List.Subset.trans hW (List.subset_append_right _ _), hPW⟩
      · rcases List.mem_append.mp hx with hx | hx
        · exact ⟨0, i, V₁, rfl, hx, hP⟩
        · obtain ⟨j, i', W, hj, hxW, hPW⟩ := hfrom x hx
          rw [hcast] at hPW
          exact ⟨j + 1, i', W, hj, hxW, hPW⟩

end Covers

/-- The entries whose chains the scan reads. -/
def scanned (e : DirEntry) : Bool := e.isDir || (e.isFile || e.entryType == ST_ROLLOVERFILE)

/-- A visit stands for an entry with the recorded chain. -/
def Visit.Valid (v : Volume) (x : Visit) : Prop :=
  ∃ entries e, v.answer (Volume.listDirByAnode x.dir) = .ok entries ∧ entries[x.pos]? = some e ∧
    v.answer (Volume.validateAnodeChain e.anode) = .ok x.blocks

/-- The visits `V` have the scanned entry `e`, at position `pos` of `dir`; a file's chain is
long enough for its size. -/
def Has (v : Volume) (V : List Visit) (dir pos : ℕ) (e : DirEntry) : Prop :=
  ∃ blocks, v.answer (Volume.validateAnodeChain e.anode) = .ok blocks ∧ ⟨dir, pos, blocks⟩ ∈ V ∧
    (e.isDir = false → e.fileSize ≤ blocks.length * SECTOR_SIZE)

/-- The visits of a scan of `dirAnode`: all scanned entries that can be reached from there. -/
structure Complete (v : Volume) (dirAnode : ℕ) (V : List Visit) : Prop where
  valid : ∀ x ∈ V, x.Valid v
  all : ∀ d, Walked v dirAnode d → ∃ entries, v.answer (Volume.listDirByAnode d) = .ok entries ∧
    ∀ i e, entries[i]? = some e → scanned e = true → Has v V d i e

theorem Has.mono {v : Volume} {V W : List Visit} {dir pos : ℕ} {e : DirEntry}
    (h : Has v V dir pos e) (hsub : V ⊆ W) : Has v W dir pos e := by
  obtain ⟨blocks, hchain, hmem, hsize⟩ := h
  exact ⟨blocks, hchain, hsub hmem, hsize⟩

/-- The blocks of a scanned entry, and where it stands. -/
def Claims (v : Volume) (dir pos : ℕ) (blocks : List ℕ) : Prop :=
  Walked v ANODE_ROOTDIR dir ∧ ∃ entries e,
    v.answer (Volume.listDirByAnode dir) = .ok entries ∧ entries[pos]? = some e ∧
    scanned e = true ∧ v.answer (Volume.validateAnodeChain e.anode) = .ok blocks

theorem Complete.claims {v : Volume} {V : List Visit} (h : Complete v ANODE_ROOTDIR V)
    {dir pos : ℕ} {blocks : List ℕ} (hc : Claims v dir pos blocks) : ⟨dir, pos, blocks⟩ ∈ V := by
  obtain ⟨hwalk, entries, e, hlist, he, hs, hchain⟩ := hc
  obtain ⟨entries', hlist', hall⟩ := h.all dir hwalk
  rw [hlist] at hlist'
  cases hlist'
  obtain ⟨blocks', hchain', hmem, -⟩ := hall pos e he hs
  rw [hchain] at hchain'
  cases hchain'
  exact hmem

/-- An entry at a place claims no block that an entry at another place claims. -/
theorem Complete.disjoint {v : Volume} {V : List Visit} (h : Complete v ANODE_ROOTDIR V)
    (hnodup : (V.flatMap Visit.blocks).Nodup) {dir pos dir' pos' : ℕ} {blocks blocks' : List ℕ}
    (hc : Claims v dir pos blocks) (hc' : Claims v dir' pos' blocks')
    (hne : (dir, pos) ≠ (dir', pos')) : List.Disjoint blocks blocks' := by
  have hpair := (List.nodup_flatMap.mp hnodup).2
  have hsymm : Std.Symm (Function.onFun List.Disjoint Visit.blocks) :=
    ⟨fun _ _ hxy _ hy hx => hxy hx hy⟩
  refine hpair.forall (h.claims hc) (h.claims hc') fun heq => hne ?_
  cases heq
  rfl

end Check

end Pfs3
