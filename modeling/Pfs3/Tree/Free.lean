import Pfs3.Tree.Dirs

/-!
# Freeing

An object that is given up leaves its blocks held; freeing takes them out of the held blocks
one by one, and clearing its anodes touches no other chain.
-/

namespace Pfs3

open ByteList Stop

namespace Store

variable {S S' : Store} {T : Owners} {held : List ℕ}

/-- Only the bitmaps and the counters differ. -/
structure SameTable (S S' : Store) : Prop where
  geo : S'.geo = S.geo
  disk : S'.disk = S.disk
  index : S'.live.index = S.live.index
  slot : S'.live.slot = S.live.slot
  dir : S'.live.dir = S.live.dir
  data : S'.data = S.data

theorem SameTable.refl (S : Store) : SameTable S S := ⟨rfl, rfl, rfl, rfl, rfl, rfl⟩

theorem SameTable.trans {S'' : Store} (h : SameTable S S') (h' : SameTable S' S'') :
    SameTable S S'' :=
  ⟨h'.geo.trans h.geo, h'.disk.trans h.disk, h'.index.trans h.index, h'.slot.trans h.slot,
    h'.dir.trans h.dir, h'.data.trans h.data⟩

theorem SameTable.getAnode (h : SameTable S S') (nr : ℕ) :
    S'.live.getAnode nr = S.live.getAnode nr := by
  unfold Meta.getAnode
  rw [h.index, h.slot]

/-- Giving up an object: its blocks are held. -/
theorem Owned.release (h : S.Owned T held) {p : ℕ} {n : Node} (hp : T p = some n) :
    S.Owned (Function.update T p none) (n.blocks ++ held) := by
  have hcase : ∀ {k x}, Function.update T p none k = some x → k ≠ p ∧ T k = some x := by
    intro k x hk
    by_cases hkp : k = p
    · subst hkp
      rw [Function.update_self] at hk
      cases hk
    · rw [Function.update_of_ne hkp] at hk
      exact ⟨hkp, hk⟩
  have hf := @Owned.forget _ _ _ h (Function.update T p none) fun k x hk => (hcase hk).2
  refine { hf with held_taken := ?_, held_free := ?_, held_nodup := ?_ }
  · intro b hb
    rcases List.mem_append.mp hb with hb | hb
    · exact h.taken hp hb
    · exact h.held_taken b hb
  · intro b hb k x hk hbx
    obtain ⟨hkp, hk⟩ := hcase hk
    rcases List.mem_append.mp hb with hb | hb
    · exact hkp (h.block_inj hk hp hbx hb)
    · exact h.held_free b hb hk hbx
  · refine List.nodup_append.mpr ⟨h.block_nodup hp, h.held_nodup, ?_⟩
    rintro b hb c hc rfl
    exact h.held_free b hc hp hb

/-- A step that changes the bitmaps, and takes nothing from the blocks that are owned or stay
held. -/
theorem Owned.freed {b : ℕ} (h : S.Owned T (b :: held)) (htable : SameTable S S') (hsane : S'.Sane)
    (htaken : ∀ c, c ≠ b → S.Taken c → S'.Taken c) : S'.Owned T held := by
  obtain ⟨hb, hnodup⟩ := List.nodup_cons.mp h.held_nodup
  have hown : ∀ {k x c}, T k = some x → c ∈ x.blocks → c ≠ b := by
    rintro k x c hk hc rfl
    exact h.held_free c List.mem_cons_self hk hc
  exact
    { sane := hsane
      linked := fun hn => (h.linked hn).congr fun a _ => htable.getAnode a.nr
      used := h.used
      anode_inj := h.anode_inj
      anode_nodup := h.anode_nodup
      taken := fun hn hc => htaken _ (hown hn hc) (h.taken hn hc)
      kind := fun hn hc => htable.geo ▸ h.kind hn hc
      content := fun hn hd hc => htable.dir ▸ h.content hn hd hc
      block_inj := h.block_inj
      block_nodup := h.block_nodup
      held_taken := fun c hc => htaken c (fun hcb => hb (hcb ▸ hc))
        (h.held_taken c (List.mem_cons_of_mem b hc))
      held_free := fun c hc => h.held_free c (List.mem_cons_of_mem b hc)
      held_nodup := hnodup }

theorem length_filter_true {f : ℕ → Bool} {n k : ℕ} (hk : k < n) (hf : f k = false) :
    ((List.range n).filter (Function.update f k true)).length =
      ((List.range n).filter f).length + 1 := by
  have h := length_filter_false (f := Function.update f k true) hk (Function.update_self _ _ _)
  have hback : Function.update (Function.update f k true) k false = f := by
    rw [Function.update_idem]
    funext j
    by_cases hj : j = k
    · rw [hj, Function.update_self, hf]
    · rw [Function.update_of_ne hj]
  rw [hback] at h
  exact h.symm

/-! ## Data blocks -/

/-- The store after data block `b` is freed. -/
def putFree (b : ℕ) (S : Store) : Store :=
  { S with
    live.free := Function.update S.live.free (b - S.geo.dataStart) true
    blocksfree := S.blocksfree + 1 }

theorem Taken.data {b : ℕ} (h : S.Taken b) (hle : S.geo.dataStart ≤ b) :
    b < S.geo.disksize ∧ S.live.free (b - S.geo.dataStart) = false := by
  rcases h with ⟨hdyn, -⟩ | ⟨-, h⟩
  · have := Taken.lt hdyn
    omega
  · exact h

theorem post_freeDataBlock {b : ℕ} (h : S.Owned T (b :: held)) (hle : S.geo.dataStart ≤ b) :
    Post (freeDataBlock b) (fun _ S' => S'.Owned T held ∧ SameTable S S') anyError S := by
  obtain ⟨hlt, hused⟩ := (h.held_taken b List.mem_cons_self).data hle
  unfold freeDataBlock
  refine post_get ?_
  rw [if_neg (by omega), if_pos hlt]
  refine post_set (post_lift fun m hm => ?_)
  have hm' : addU32 S.blocksfree 1 = .ok m := hm
  have hval : m = S.blocksfree + 1 := by
    unfold addU32 at hm'
    split at hm'
    · cases hm'
      rfl
    · cases hm'
  subst hval
  have htable : SameTable S (putFree b S) := ⟨rfl, rfl, rfl, rfl, rfl, rfl⟩
  have hdb : S.geo.dataBlocks = S.geo.disksize - S.geo.dataStart := rfl
  have hsane : (putFree b S).Sane :=
    { reserve := h.sane.reserve
      index := h.sane.index
      disk := h.sane.disk
      blocks := by
        have hcount := length_filter_true (f := S.live.free) (n := S.geo.dataBlocks)
          (k := b - S.geo.dataStart) (by omega) hused
        have hblocks := h.sane.blocks
        unfold freeBlocks at hblocks ⊢
        show S.blocksfree + 1 = _
        rw [hblocks]
        exact hcount.symm
      reserved := h.sane.reserved
      bound := fun r hr => by
        by_cases hrb : r = b - S.geo.dataStart
        · show r < S.geo.dataBlocks
          omega
        · have hr' : Function.update S.live.free (b - S.geo.dataStart) true r = true := hr
          rw [Function.update_of_ne hrb] at hr'
          exact h.sane.bound r hr' }
  refine post_modify (post_pure ⟨@Owned.freed S (putFree b S) _ _ _ h htable hsane fun c hcb hc => ?_, htable⟩)
  rcases hc with hc | ⟨h₁, h₂, h₃⟩
  · exact Or.inl hc
  · refine Or.inr ⟨h₁, h₂, ?_⟩
    have hne : c - S.geo.dataStart ≠ b - S.geo.dataStart := by omega
    show Function.update S.live.free (b - S.geo.dataStart) true (c - S.geo.dataStart) = false
    rw [Function.update_of_ne hne]
    exact h₃

/-- Freeing consecutive blocks. -/
theorem post_freeRun {bn : ℕ} (l : List ℕ) : ∀ {S : Store},
    S.Owned T (l.map (bn + ·) ++ held) → (∀ i ∈ l, S.geo.dataStart ≤ bn + i) →
    Post (l.forM fun i => do
      let blk ← (liftM (addU32 bn i) : StoreM ℕ)
      freeDataBlock blk) (fun _ S' => S'.Owned T held ∧ SameTable S S') anyError S := by
  induction l with
  | nil => exact fun h _ => post_pure ⟨h, .refl _⟩
  | cons i l ih =>
      intro S h hle
      have hadd : Post (do
          let blk ← (liftM (addU32 bn i) : StoreM ℕ)
          freeDataBlock blk) (fun _ S' => S'.Owned T (l.map (bn + ·) ++ held) ∧ SameTable S S')
          anyError S := by
        refine post_lift fun blk hblk => ?_
        unfold addU32 at hblk
        split at hblk
        · cases hblk
          exact post_freeDataBlock h (hle i List.mem_cons_self)
        · cases hblk
      refine hadd.seq ?_
      rintro _ S₁ ⟨h₁, ht₁⟩
      refine (ih h₁ fun j hj => ?_).mono ?_ fun _ _ h => h
      · rw [ht₁.geo]
        exact hle j (List.mem_cons_of_mem i hj)
      · rintro _ S₂ ⟨h₂, ht₂⟩
        exact ⟨h₂, ht₁.trans ht₂⟩

theorem map_add_range (bn cs : ℕ) : (List.range cs).map (bn + ·) = List.range' bn cs := by
  rw [List.range_eq_range', List.map_add_range', Nat.add_zero]

theorem post_freeExtent {a : Anode} (h : S.Owned T (List.range' a.blocknr a.clustersize ++ held))
    (hle : ∀ b ∈ List.range' a.blocknr a.clustersize, S.geo.dataStart ≤ b) :
    Post (freeExtent a) (fun _ S' => S'.Owned T held ∧ SameTable S S') anyError S := by
  rw [← map_add_range] at h hle
  exact post_freeRun _ h fun i hi => hle _ (List.mem_map_of_mem hi)

theorem post_freeExtents (l : List Anode) : ∀ {S : Store},
    S.Owned T (AnodeReader.chainBlocks l ++ held) →
    (∀ b ∈ AnodeReader.chainBlocks l, S.geo.dataStart ≤ b) →
    Post (l.forM freeExtent) (fun _ S' => S'.Owned T held ∧ SameTable S S') anyError S := by
  induction l with
  | nil => exact fun h _ => post_pure ⟨h, .refl _⟩
  | cons a l ih =>
      intro S h hle
      have hcons : AnodeReader.chainBlocks (a :: l) =
          List.range' a.blocknr a.clustersize ++ AnodeReader.chainBlocks l := rfl
      rw [hcons, List.append_assoc] at h
      rw [hcons] at hle
      refine (post_freeExtent h fun b hb => hle b (List.mem_append_left _ hb)).seq ?_
      rintro _ S₁ ⟨h₁, ht₁⟩
      refine (ih h₁ fun b hb => ?_).mono ?_ fun _ _ h => h
      · rw [ht₁.geo]
        exact hle b (List.mem_append_right _ hb)
      · rintro _ S₂ ⟨h₂, ht₂⟩
        exact ⟨h₂, ht₁.trans ht₂⟩

/-- Freeing the data blocks of a file that is given up. -/
theorem post_freeDataBlocks (h : S.Owned T held) {p : ℕ} {n : Node} (hp : T p = some n)
    (hdir : n.isDir = false) (hdisk : S.disk.Linked p n.chain) :
    Post (freeDataBlocks p) (fun _ S' => S'.Owned (Function.update T p none) held ∧ SameTable S S')
      anyError S := by
  unfold freeDataBlocks
  refine (post_getChain p).seq ?_
  rintro c S₀ ⟨hS, hc, -⟩
  obtain rfl : S = S₀ := hS.symm
  obtain rfl := hc.unique hdisk
  refine post_freeExtents _ (h.release hp) fun b hb => ?_
  have hkind := h.kind hp hb
  rw [hdir] at hkind
  by_contra hlt
  exact absurd (hkind.mpr (by omega)) (by decide)

/-! ## Reserved blocks -/

/-- The store after block `k` of the reserved area is freed. -/
def putReserved (k : ℕ) (S : Store) : Store :=
  { S with resFree := Function.update S.resFree k true, reservedFree := S.reservedFree + 1 }

theorem post_freeReservedBlock {b : ℕ} (h : S.Owned T (b :: held)) (hlt : b < S.geo.dataStart) :
    Post (freeReservedBlock b) (fun _ S' => S'.Owned T held ∧ SameTable S S') anyError S := by
  obtain ⟨hdyn, hidx, hused⟩ := (h.held_taken b List.mem_cons_self).dynamic hlt
  unfold freeReservedBlock
  refine post_get ?_
  rw [if_pos hdyn]
  refine post_set (post_lift fun m hm => ?_)
  have hm' : addU32 S.reservedFree 1 = .ok m := hm
  have hval : m = S.reservedFree + 1 := by
    unfold addU32 at hm'
    split at hm'
    · cases hm'
      rfl
    · cases hm'
  subst hval
  obtain ⟨k, hk₁, hk₂, rfl⟩ := hdyn
  have hdiv : (Geometry.blockAt k - 2) / 2 = k := by
    simp only [Geometry.blockAt]
    omega
  have hinj : ∀ j, Geometry.blockAt k = Geometry.blockAt j → j = k := fun j hj => by
    simp only [Geometry.blockAt] at hj
    omega
  have htable : SameTable S (putReserved k S) := ⟨rfl, rfl, rfl, rfl, rfl, rfl⟩
  have hfree : ∀ j, (putReserved k S).resFree j = true → j = k ∨ S.resFree j = true := by
    intro j hj
    by_cases hjk : j = k
    · exact Or.inl hjk
    · exact Or.inr ((Function.update_of_ne hjk _ _).symm.trans hj)
  have hstill : ∀ j, j ≠ k → S.resFree j = false → (putReserved k S).resFree j = false :=
    fun j hj hf => (Function.update_of_ne hj _ _).trans hf
  have hsane : (putReserved k S).Sane :=
    { reserve := fun j hj => by
        rcases hfree j hj with rfl | hj
        · exact ⟨hk₁, hk₂, hidx⟩
        · exact h.sane.reserve j hj
      index := fun s hs => by
        obtain ⟨h₁, h₂, h₃⟩ := h.sane.index s hs
        refine ⟨h₁, h₂, fun j hj => hstill j ?_ (h₃ j hj)⟩
        rintro rfl
        exact hidx s hj
      disk := h.sane.disk
      blocks := h.sane.blocks
      reserved := by
        have hcount := length_filter_true (f := S.resFree) hk₂ (hused k rfl)
        have hres := h.sane.reserved
        unfold freeReserved at hres ⊢
        show S.reservedFree + 1 = _
        rw [hres]
        exact hcount.symm
      bound := h.sane.bound }
  rw [hdiv]
  refine post_modify (post_pure ⟨@Owned.freed S (putReserved k S) _ _ _ h htable hsane
    fun c hcb hc => ?_, htable⟩)
  rcases hc with ⟨h₁, h₂, h₃⟩ | hc
  · refine Or.inl ⟨h₁, h₂, fun j hj => hstill j ?_ (h₃ j hj)⟩
    rintro rfl
    exact hcb hj
  · exact Or.inr hc

theorem post_freeReservedRun {bn : ℕ} (l : List ℕ) : ∀ {S : Store},
    S.Owned T (l.map (bn + ·) ++ held) → (∀ i ∈ l, bn + i < S.geo.dataStart) →
    Post (l.forM fun i => do
      let blk ← (liftM (addU32 bn i) : StoreM ℕ)
      freeReservedBlock blk) (fun _ S' => S'.Owned T held ∧ SameTable S S') anyError S := by
  induction l with
  | nil => exact fun h _ => post_pure ⟨h, .refl _⟩
  | cons i l ih =>
      intro S h hlt
      have hadd : Post (do
          let blk ← (liftM (addU32 bn i) : StoreM ℕ)
          freeReservedBlock blk) (fun _ S' => S'.Owned T (l.map (bn + ·) ++ held) ∧ SameTable S S')
          anyError S := by
        refine post_lift fun blk hblk => ?_
        unfold addU32 at hblk
        split at hblk
        · cases hblk
          exact post_freeReservedBlock h (hlt i List.mem_cons_self)
        · cases hblk
      refine hadd.seq ?_
      rintro _ S₁ ⟨h₁, ht₁⟩
      refine (ih h₁ fun j hj => ?_).mono ?_ fun _ _ h => h
      · rw [ht₁.geo]
        exact hlt j (List.mem_cons_of_mem i hj)
      · rintro _ S₂ ⟨h₂, ht₂⟩
        exact ⟨h₂, ht₁.trans ht₂⟩

theorem post_freeReservedExtents (l : List Anode) : ∀ {S : Store},
    S.Owned T (AnodeReader.chainBlocks l ++ held) →
    (∀ b ∈ AnodeReader.chainBlocks l, b < S.geo.dataStart) →
    Post (l.forM fun an => (List.range an.clustersize).forM fun i => do
      let blk ← (liftM (addU32 an.blocknr i) : StoreM ℕ)
      freeReservedBlock blk) (fun _ S' => S'.Owned T held ∧ SameTable S S') anyError S := by
  induction l with
  | nil => exact fun h _ => post_pure ⟨h, .refl _⟩
  | cons a l ih =>
      intro S h hlt
      have hcons : AnodeReader.chainBlocks (a :: l) =
          List.range' a.blocknr a.clustersize ++ AnodeReader.chainBlocks l := rfl
      rw [hcons, List.append_assoc, ← map_add_range] at h
      rw [hcons, ← map_add_range] at hlt
      refine (post_freeReservedRun _ h fun i hi =>
        hlt _ (List.mem_append_left _ (List.mem_map_of_mem hi))).seq ?_
      rintro _ S₁ ⟨h₁, ht₁⟩
      refine (ih h₁ fun b hb => ?_).mono ?_ fun _ _ h => h
      · rw [ht₁.geo]
        exact hlt b (List.mem_append_right _ hb)
      · rintro _ S₂ ⟨h₂, ht₂⟩
        exact ⟨h₂, ht₁.trans ht₂⟩

/-- Freeing the blocks of a directory that is given up. -/
theorem post_freeAnodeChainReserved (h : S.Owned T held) {p : ℕ} {n : Node} (hp : T p = some n)
    (hdir : n.isDir = true) (hdisk : S.disk.Linked p n.chain) :
    Post (freeAnodeChainReserved p) (fun _ S' => S'.Owned (Function.update T p none) held ∧
      SameTable S S') anyError S := by
  unfold freeAnodeChainReserved
  refine (post_getChain p).seq ?_
  rintro c S₀ ⟨hS, hc, -⟩
  obtain rfl : S = S₀ := hS.symm
  obtain rfl := hc.unique hdisk
  exact post_freeReservedExtents _ (h.release hp) fun b hb => (h.kind hp hb).mp hdir

/-! ## Clearing anodes -/

/-- Writing a slot that belongs to nobody. -/
theorem Owned.setSlot (h : S.Owned T held) {nr : ℕ} (s : Slot)
    (hnr : ∀ {k x a}, T k = some x → a ∈ x.chain → a.nr ≠ nr) : (setSlot nr s S).Owned T held where
  sane := h.sane.setSlot nr s
  linked hn := (h.linked hn).congr fun _ ha => getAnode_setSlot_ne (hnr hn ha)
  used := h.used
  anode_inj := h.anode_inj
  anode_nodup := h.anode_nodup
  taken := h.taken
  kind := h.kind
  content := h.content
  block_inj := h.block_inj
  block_nodup := h.block_nodup
  held_taken := h.held_taken
  held_free := h.held_free
  held_nodup := h.held_nodup

/-- Only the anode table differs. -/
structure SameBlocks (S S' : Store) : Prop where
  geo : S'.geo = S.geo
  disk : S'.disk = S.disk
  dir : S'.live.dir = S.live.dir
  free : S'.live.free = S.live.free
  data : S'.data = S.data

theorem post_clearAnodes (l : List Anode) : ∀ {S : Store}, S.Owned T held →
    (∀ a ∈ l, S.disk.getAnode a.nr = .ok a) →
    (∀ a ∈ l, ∀ {k x c}, T k = some x → c ∈ x.chain → c.nr ≠ a.nr) →
    Post (l.forM fun an => clearSingleAnode an.nr) (fun _ S' => S'.Owned T held ∧ SameBlocks S S')
      anyError S := by
  induction l with
  | nil => exact fun h _ _ => post_pure ⟨h, rfl, rfl, rfl, rfl, rfl⟩
  | cons a l ih =>
      intro S h hget hnot
      refine (post_writeAnodeFields (hget a List.mem_cons_self) 0 0 0).seq ?_
      rintro _ _ rfl
      have h₁ := h.setSlot (.ofNat 0 0 0) (hnot a List.mem_cons_self)
      refine (ih h₁ (fun c hc => hget c (List.mem_cons_of_mem a hc)) fun c hc =>
        hnot c (List.mem_cons_of_mem a hc)).mono ?_ fun _ _ h => h
      rintro _ S₂ ⟨h₂, hs⟩
      exact ⟨h₂, hs.geo, hs.disk, hs.dir, hs.free, hs.data⟩

/-- Clearing the chain of an object that nobody owns any more. -/
theorem post_clearAnodeChain (h : S.Owned T held) {p : ℕ} {chain : List Anode}
    (hdisk : S.disk.Linked p chain)
    (hnot : ∀ a ∈ chain, ∀ {k x c}, T k = some x → c ∈ x.chain → c.nr ≠ a.nr) :
    Post (clearAnodeChain p) (fun _ S' => S'.Owned T held ∧ SameBlocks S S') anyError S := by
  unfold clearAnodeChain
  refine (post_getChain p).seq ?_
  rintro c S₀ ⟨hS, hc, -⟩
  obtain rfl : S = S₀ := hS.symm
  obtain rfl := hc.unique hdisk
  exact post_clearAnodes _ h (fun a ha => hdisk.mem ha) hnot

/-- The anodes of an object given up belong to nobody. -/
theorem Owned.released (h : S.Owned T held) {p : ℕ} {n : Node} (hp : T p = some n) :
    ∀ a ∈ n.chain, ∀ {k x c}, Function.update T p none k = some x → c ∈ x.chain → c.nr ≠ a.nr := by
  intro a ha k x c hk hc heq
  by_cases hkp : k = p
  · subst hkp
    rw [Function.update_self] at hk
    cases hk
  · rw [Function.update_of_ne hkp] at hk
    exact hkp (h.anode_inj hk hp hc ha heq)

end Store

end Pfs3
