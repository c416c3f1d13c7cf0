import Pfs3.Tree.Files

/-!
# Directories

The entries of a directory are those of its blocks in order.  Adding, removing and changing an
entry touches one block, or appends a new one to the chain.
-/

namespace Pfs3

open ByteList Stop

/-! ## Listings -/

namespace Meta

/-- The entries of one block. -/
def entriesAt (m : Meta) (b : ℕ) : List Entry := ((m.dir b).map DirBlock.entries).getD []

/-- The entries of the given blocks in order. -/
def listing (m : Meta) (blks : List ℕ) : List Entry := blks.flatMap m.entriesAt

variable {m m' : Meta}

theorem listBlocks_ok {blks : List ℕ} (h : ∀ b ∈ blks, (m.dir b).isSome) :
    m.listBlocks blks = .ok (m.listing blks) := by
  induction blks with
  | nil => rfl
  | cons b rest ih =>
      obtain ⟨d, hd⟩ := Option.isSome_iff_exists.mp (h b List.mem_cons_self)
      have hrest := ih fun c hc => h c (List.mem_cons_of_mem b hc)
      have hread : m.readDir b = .ok d := by
        unfold readDir
        rw [hd]
      unfold listBlocks
      rw [hread, ok_bind, hrest, ok_bind, listing, listing, List.flatMap_cons, entriesAt, hd]
      rfl

theorem listing_congr {blks : List ℕ} (h : ∀ b ∈ blks, m'.dir b = m.dir b) :
    m'.listing blks = m.listing blks := by
  refine List.flatMap_congr fun b hb => ?_
  rw [entriesAt, entriesAt, h b hb]

theorem listing_append (l₁ l₂ : List ℕ) : m.listing (l₁ ++ l₂) = m.listing l₁ ++ m.listing l₂ :=
  List.flatMap_append

theorem listing_single (b : ℕ) : m.listing [b] = m.entriesAt b := by
  rw [listing, List.flatMap_cons, List.flatMap_nil, List.append_nil]

/-- A change of one block, seen in the listing. -/
theorem listing_split {l₁ l₂ : List ℕ} {b : ℕ} (hnodup : (l₁ ++ b :: l₂).Nodup)
    (h : ∀ c ∈ l₁ ++ b :: l₂, c ≠ b → m'.dir c = m.dir c) :
    m.listing (l₁ ++ b :: l₂) = m.listing l₁ ++ (m.entriesAt b ++ m.listing l₂) ∧
    m'.listing (l₁ ++ b :: l₂) = m.listing l₁ ++ (m'.entriesAt b ++ m.listing l₂) := by
  have hsplit : ∀ m : Meta, m.listing (l₁ ++ b :: l₂) =
      m.listing l₁ ++ (m.entriesAt b ++ m.listing l₂) := fun m => by
    rw [listing_append]
    rfl
  obtain ⟨-, h₂, h₁⟩ := List.nodup_append.mp hnodup
  have hb := (List.nodup_cons.mp h₂).1
  refine ⟨hsplit m, (hsplit m').trans ?_⟩
  rw [listing_congr fun c hc => h c (List.mem_append_left _ hc) (h₁ c hc b List.mem_cons_self),
    listing_congr fun c hc => h c (List.mem_append_right l₁ (List.mem_cons_of_mem b hc))
      fun heq => hb (heq ▸ hc)]

end Meta

namespace Store

variable {S S' : Store} {T : Owners} {held : List ℕ} {X : ℕ → Prop}

/-! ## Writing one block -/

theorem dir_setDir (b : ℕ) (d : Option DirBlock) (S : Store) : (setDir b d S).live.dir b = d :=
  Function.update_self _ _ _

theorem dir_setDir_ne {b c : ℕ} {d : Option DirBlock} (h : c ≠ b) :
    (setDir b d S).live.dir c = S.live.dir c := Function.update_of_ne h _ _

/-- Writing a directory block. -/
theorem stays_setDir (b : ℕ) (d : DirBlock) : S.Stays (setDir b (some d) S) (· = b) where
  geo := rfl
  disk := rfl
  taken _ hb := hb
  content c _ hd := by
    by_cases hc : c = b
    · rw [hc, dir_setDir]
      rfl
    · rw [dir_setDir_ne hc]
      exact hd
  dirs c _ hc := dir_setDir_ne hc
  anode _ _ ha _ := ha

theorem Sane.setDir (h : S.Sane) (b : ℕ) (d : Option DirBlock) : (setDir b d S).Sane :=
  ⟨h.reserve, h.index, h.disk, h.blocks, h.reserved, h.bound⟩

theorem Taken.usable {b : ℕ} (h : S.Taken b) (hlt : b < S.geo.dataStart) : S.Usable b :=
  ⟨(h.dynamic hlt).1, fun s _ => (h.dynamic hlt).2.1 s⟩

theorem post_writeDir {b : ℕ} (h : S.Usable b) (d : DirBlock) :
    Post (writeDir b d) (fun _ S' => S' = setDir b (some d) S) anyError S := by
  unfold writeDir
  refine post_get ?_
  rw [if_pos h]
  exact rfl

theorem post_readDir {b : ℕ} (h : (S.live.dir b).isSome) :
    Post (readDir b) (fun d S' => S' = S ∧ S.live.dir b = some d) anyError S := by
  obtain ⟨d, hd⟩ := Option.isSome_iff_exists.mp h
  unfold readDir
  refine post_get ?_
  have hread : S.live.readDir b = .ok d := by
    unfold Meta.readDir
    rw [hd]
  rw [hread]
  exact ⟨rfl, hd⟩

/-- The store with a later datestamp. -/
def tick (S : Store) : Store := { S with datestamp := S.datestamp + 1 }

theorem stays_tick (S : Store) (X : ℕ → Prop) : S.Stays (tick S) X := by
  refine stays_of_eq ?_ ?_ ?_ ?_ _ <;> rfl

theorem Sane.tick (h : S.Sane) : (tick S).Sane :=
  ⟨h.reserve, h.index, h.disk, h.blocks, h.reserved, h.bound⟩

theorem post_tick : Post nextDatestamp (fun _ S' => S' = tick S) anyError S :=
  post_nextDatestamp.mono (fun _ _ h => h.1) fun _ _ h => h

/-- Some block of the directory has room for an entry of `size` bytes. -/
def HasSpace (S : Store) (blks : List ℕ) (size : ℕ) : Prop :=
  ∃ b ∈ blks, ∃ d, S.live.dir b = some d ∧ HasRoom d size

/-- What the search for room does. -/
theorem post_addToBlocks (entry : Entry) (blks : List ℕ) :
    (∀ b ∈ blks, (S.live.dir b).isSome ∧ S.Usable b) →
    Post (addToBlocks entry blks) (fun placed S' =>
      (placed = true ∧ ∃ b d, b ∈ blks ∧ S.live.dir b = some d ∧
        S' = setDir b (some { d with entries := d.entries ++ [entry] }) (tick S)) ∨
      (placed = false ∧ S' = S ∧ ¬ S.HasSpace blks entry.size)) anyError S := by
  induction blks with
  | nil =>
      intro _
      exact post_pure (Or.inr ⟨rfl, rfl, fun ⟨b, hb, _⟩ => absurd hb List.not_mem_nil⟩)
  | cons b rest ih =>
      intro hblks
      obtain ⟨hsome, husable⟩ := hblks b List.mem_cons_self
      unfold addToBlocks
      refine (post_readDir hsome).seq ?_
      rintro d _ ⟨rfl, hd⟩
      by_cases hroom : HasRoom d entry.size
      · rw [if_pos hroom]
        refine post_tick.seq ?_
        rintro _ _ rfl
        refine (post_writeDir (S := tick _) husable _).seq ?_
        rintro _ _ rfl
        exact post_pure (Or.inl ⟨rfl, b, d, List.mem_cons_self, hd, rfl⟩)
      · rw [if_neg hroom]
        refine (ih fun c hc => hblks c (List.mem_cons_of_mem b hc)).mono ?_ fun _ _ h => h
        rintro placed S' (⟨hp, c, d', hc, hd', hS'⟩ | ⟨hp, hS', hno⟩)
        · exact Or.inl ⟨hp, c, d', List.mem_cons_of_mem b hc, hd', hS'⟩
        · refine Or.inr ⟨hp, hS', ?_⟩
          rintro ⟨c, hc, d', hd', hr⟩
          rcases List.mem_cons.mp hc with rfl | hc
          · rw [hd] at hd'
            cases hd'
            exact hroom hr
          · exact hno ⟨c, hc, d', hd', hr⟩

/-! ## Chains -/

/-- The chain with its last anode linked to `next`, and the anodes behind it. -/
def relink (next : ℕ) (more : List Anode) : List Anode → List Anode
  | [] => more
  | [a] => { a with next := next } :: more
  | a :: b :: l => a :: relink next more (b :: l)

theorem map_nr_relink (next : ℕ) (more : List Anode) : ∀ l : List Anode,
    (relink next more l).map Anode.nr = l.map Anode.nr ++ more.map Anode.nr
  | [] => rfl
  | [_] => rfl
  | a :: b :: l => by
      rw [relink, List.map_cons, map_nr_relink next more (b :: l)]
      rfl

theorem chainBlocks_relink (next : ℕ) (more : List Anode) : ∀ l : List Anode,
    AnodeReader.chainBlocks (relink next more l) =
      AnodeReader.chainBlocks l ++ AnodeReader.chainBlocks more
  | [] => rfl
  | [a] => by
      simp only [relink, AnodeReader.chainBlocks, List.flatMap_cons, List.flatMap_nil,
        List.append_nil]
  | a :: b :: l => by
      have ih := chainBlocks_relink next more (b :: l)
      unfold AnodeReader.chainBlocks at ih ⊢
      simp only [relink, List.flatMap_cons] at ih ⊢
      rw [ih]
      simp only [List.append_assoc]

theorem mem_relink {next : ℕ} {more : List Anode} {x : Anode} : ∀ {l : List Anode},
    x ∈ relink next more l →
    x ∈ more ∨ ∃ a ∈ l, a.nr = x.nr ∧ a.clustersize = x.clustersize
  | [], h => Or.inl h
  | [a], h => by
      rcases List.mem_cons.mp h with rfl | h
      · exact Or.inr ⟨a, List.mem_cons_self, rfl, rfl⟩
      · exact Or.inl h
  | a :: b :: l, h => by
      rcases List.mem_cons.mp h with rfl | h
      · exact Or.inr ⟨x, List.mem_cons_self, rfl, rfl⟩
      · rcases mem_relink h with h | ⟨c, hc, h⟩
        · exact Or.inl h
        · exact Or.inr ⟨c, List.mem_cons_of_mem a hc, h⟩

/-- The relinked chain, once the slot of its last anode is written. -/
theorem linked_relink {m m' : Meta} {next : ℕ} {more : List Anode} (hmore : m'.Linked next more)
    {tail : Anode} : ∀ {l : List Anode} {nr : ℕ}, m.Linked nr l → l.getLast? = some tail →
    (l.map Anode.nr).Nodup → (∀ j, j ≠ tail.nr → m'.getAnode j = m.getAnode j) →
    m'.getAnode tail.nr = .ok { tail with next := next } → m'.Linked nr (relink next more l)
  | [], _, _, hlast, _, _, _ => by cases hlast
  | [a], nr, h, hlast, _, _, htail => by
      cases hlast
      have hnr := Meta.getAnode_nr h.2.1
      exact ⟨h.1, hnr ▸ htail, hmore⟩
  | a :: b :: l, nr, h, hlast, hnodup, hsame, htail => by
      have hnr := Meta.getAnode_nr h.2.1
      have hlast' : (b :: l).getLast? = some tail := by
        rw [List.getLast?_cons_cons] at hlast
        exact hlast
      obtain ⟨hnot, hnodup'⟩ := List.nodup_cons.mp hnodup
      have hmem : tail ∈ b :: l := List.mem_of_getLast? hlast'
      have hne : nr ≠ tail.nr := by
        rintro rfl
        rw [hnr] at hnot
        exact hnot (List.mem_map_of_mem hmem)
      exact ⟨h.1, (hsame nr hne).trans h.2.1, linked_relink hmore h.2.2 hlast' hnodup' hsame htail⟩

theorem anode_lt {m : Meta} {nr : ℕ} {a : Anode} (h : m.getAnode nr = .ok a) :
    a.clustersize < U32 ∧ a.blocknr < U32 ∧ a.next < U32 := by
  obtain ⟨-, -, rfl⟩ := Meta.getAnode_ok h
  exact ⟨UInt32.toNat_lt _, UInt32.toNat_lt _, UInt32.toNat_lt _⟩

theorem post_writeAnodeFields {nr : ℕ} {a : Anode} (h : S.disk.getAnode nr = .ok a) (cs bn nx : ℕ) :
    Post (writeAnodeFields nr cs bn nx) (fun _ S' => S' = setSlot nr (.ofNat cs bn nx) S)
      anyError S := by
  obtain ⟨hreg, hoff, -⟩ := Meta.getAnode_ok h
  unfold writeAnodeFields
  refine post_get ?_
  rw [if_neg (by omega)]
  exact rfl

theorem getAnode_setSlot_live {nr cs bn nx : ℕ} {a : Anode} (h : S.live.getAnode nr = .ok a)
    (h₁ : cs < U32) (h₂ : bn < U32) (h₃ : nx < U32) :
    (setSlot nr (.ofNat cs bn nx) S).live.getAnode nr = .ok ⟨cs, bn, nx, nr⟩ := by
  obtain ⟨hreg, hoff, -⟩ := Meta.getAnode_ok h
  rw [getAnode_setSlot hreg hoff, anode_ofNat h₁ h₂ h₃]

/-- Appending the chain of the object `q` to that of `p`. -/
theorem Owned.append (h : S.Owned T held) {p q : ℕ} {n m : Node} {tail : Anode}
    (hp : T p = some n) (hq : T q = some m) (hpq : p ≠ q) (hkind : m.isDir = n.isDir)
    (hq' : q < U32) (htail : n.chain.getLast? = some tail) :
    (setSlot tail.nr (.ofNat tail.clustersize tail.blocknr q) S).Owned
      (Function.update (Function.update T q none) p (some ⟨n.isDir, relink q m.chain n.chain⟩))
      held := by
  have hmem : tail ∈ n.chain := List.mem_of_getLast? htail
  have hget := (h.linked hp).mem hmem
  obtain ⟨hcs, hbn, -⟩ := anode_lt hget
  have hcase : ∀ {k x}, Function.update (Function.update T q none) p
      (some ⟨n.isDir, relink q m.chain n.chain⟩) k = some x →
      (k = p ∧ x = ⟨n.isDir, relink q m.chain n.chain⟩) ∨ (k ≠ p ∧ k ≠ q ∧ T k = some x) := by
    intro k x hk
    by_cases hkp : k = p
    · subst hkp
      rw [Function.update_self] at hk
      cases hk
      exact Or.inl ⟨rfl, rfl⟩
    · rw [Function.update_of_ne hkp] at hk
      by_cases hkq : k = q
      · subst hkq
        rw [Function.update_self] at hk
        cases hk
      · rw [Function.update_of_ne hkq] at hk
        exact Or.inr ⟨hkp, hkq, hk⟩
  -- every anode and block of the merged object belonged to `p` or to `q`
  have hanode : ∀ {x}, x ∈ relink q m.chain n.chain → ∃ j y a, T j = some y ∧ (j = p ∨ j = q) ∧
      a ∈ y.chain ∧ a.nr = x.nr ∧ a.clustersize = x.clustersize := by
    intro x hx
    rcases mem_relink hx with hx | ⟨a, ha, hnr, hsize⟩
    · exact ⟨q, m, x, hq, Or.inr rfl, hx, rfl, rfl⟩
    · exact ⟨p, n, a, hp, Or.inl rfl, ha, hnr, hsize⟩
  have hblocks : (⟨n.isDir, relink q m.chain n.chain⟩ : Node).blocks = n.blocks ++ m.blocks :=
    chainBlocks_relink q m.chain n.chain
  have hblock : ∀ {b}, b ∈ (⟨n.isDir, relink q m.chain n.chain⟩ : Node).blocks →
      ∃ j y, T j = some y ∧ (j = p ∨ j = q) ∧ b ∈ y.blocks ∧ y.isDir = n.isDir := by
    intro b hb
    rw [hblocks] at hb
    rcases List.mem_append.mp hb with hb | hb
    · exact ⟨p, n, hp, Or.inl rfl, hb, rfl⟩
    · exact ⟨q, m, hq, Or.inr rfl, hb, hkind⟩
  have hother : ∀ {k x c}, T k = some x → k ≠ p → c ∈ x.chain →
      (setSlot tail.nr (.ofNat tail.clustersize tail.blocknr q) S).live.getAnode c.nr =
        S.live.getAnode c.nr := by
    intro k x c hk hkp hc
    exact getAnode_setSlot_ne fun heq => hkp (h.anode_inj hk hp hc hmem heq)
  have hm : (setSlot tail.nr (.ofNat tail.clustersize tail.blocknr q) S).live.Linked q m.chain :=
    (h.linked hq).congr fun a ha => hother hq hpq.symm ha
  refine
    { sane := h.sane.setSlot _ _
      linked := ?_
      used := ?_
      anode_inj := ?_
      anode_nodup := ?_
      taken := ?_
      kind := ?_
      content := ?_
      block_inj := ?_
      block_nodup := ?_
      held_taken := h.held_taken
      held_free := ?_
      held_nodup := h.held_nodup }
  · intro k x hk
    rcases hcase hk with ⟨rfl, rfl⟩ | ⟨hkp, -, hk⟩
    · refine linked_relink hm (h.linked hp) htail (h.anode_nodup hp) (fun j hj => getAnode_setSlot_ne hj) ?_
      exact getAnode_setSlot_live hget hcs hbn hq'
    · exact (h.linked hk).congr fun a ha => hother hk hkp ha
  · intro k x a hk ha
    rcases hcase hk with ⟨rfl, rfl⟩ | ⟨-, -, hk⟩
    · obtain ⟨j, y, c, hj, -, hc, -, hsize⟩ := hanode ha
      exact hsize ▸ h.used hj hc
    · exact h.used hk ha
  · intro k x k' x' a a' hk hk' ha ha' heq
    rcases hcase hk with ⟨rfl, rfl⟩ | ⟨hkp, hkq, h₁⟩ <;>
      rcases hcase hk' with ⟨rfl, rfl⟩ | ⟨hkp', hkq', h₂⟩
    · rfl
    · obtain ⟨j, y, c, hj, hjpq, hc, hnr, -⟩ := hanode ha
      have hjk := h.anode_inj hj h₂ hc ha' (hnr.trans heq)
      rcases hjpq with rfl | rfl
      · exact absurd hjk.symm hkp'
      · exact absurd hjk.symm hkq'
    · obtain ⟨j, y, c, hj, hjpq, hc, hnr, -⟩ := hanode ha'
      have hjk := h.anode_inj hj h₁ hc ha (hnr.trans heq.symm)
      rcases hjpq with rfl | rfl
      · exact absurd hjk.symm hkp
      · exact absurd hjk.symm hkq
    · exact h.anode_inj h₁ h₂ ha ha' heq
  · intro k x hk
    rcases hcase hk with ⟨rfl, rfl⟩ | ⟨-, -, hk⟩
    · show ((relink q m.chain n.chain).map Anode.nr).Nodup
      rw [map_nr_relink]
      refine List.nodup_append.mpr ⟨h.anode_nodup hp, h.anode_nodup hq, ?_⟩
      rintro j hj c hc rfl
      obtain ⟨a, ha, hanr⟩ := List.mem_map.mp hj
      obtain ⟨a', ha', hanr'⟩ := List.mem_map.mp hc
      exact hpq (h.anode_inj hp hq ha ha' (hanr.trans hanr'.symm))
    · exact h.anode_nodup hk
  · intro k x b hk hb
    rcases hcase hk with ⟨rfl, rfl⟩ | ⟨-, -, hk⟩
    · obtain ⟨j, y, hj, -, hby, -⟩ := hblock hb
      exact h.taken hj hby
    · exact h.taken hk hb
  · intro k x b hk hb
    rcases hcase hk with ⟨rfl, rfl⟩ | ⟨-, -, hk⟩
    · obtain ⟨j, y, hj, -, hby, hdir⟩ := hblock hb
      have hkd := h.kind hj hby
      rw [hdir] at hkd
      exact hkd
    · exact h.kind hk hb
  · intro k x b hk hd hb
    rcases hcase hk with ⟨rfl, rfl⟩ | ⟨-, -, hk⟩
    · obtain ⟨j, y, hj, -, hby, hdir⟩ := hblock hb
      exact h.content hj (hdir.trans hd) hby
    · exact h.content hk hd hb
  · intro k x k' x' b hk hk' hb hb'
    rcases hcase hk with ⟨rfl, rfl⟩ | ⟨hkp, hkq, h₁⟩ <;>
      rcases hcase hk' with ⟨rfl, rfl⟩ | ⟨hkp', hkq', h₂⟩
    · rfl
    · obtain ⟨j, y, hj, hjpq, hby, -⟩ := hblock hb
      have hjk := h.block_inj hj h₂ hby hb'
      rcases hjpq with rfl | rfl
      · exact absurd hjk.symm hkp'
      · exact absurd hjk.symm hkq'
    · obtain ⟨j, y, hj, hjpq, hby, -⟩ := hblock hb'
      have hjk := h.block_inj hj h₁ hby hb
      rcases hjpq with rfl | rfl
      · exact absurd hjk.symm hkp
      · exact absurd hjk.symm hkq
    · exact h.block_inj h₁ h₂ hb hb'
  · intro k x hk
    rcases hcase hk with ⟨rfl, rfl⟩ | ⟨-, -, hk⟩
    · rw [hblocks]
      refine List.nodup_append.mpr ⟨h.block_nodup hp, h.block_nodup hq, ?_⟩
      rintro b hb c hc rfl
      exact hpq (h.block_inj hp hq hb hc)
    · exact h.block_nodup hk
  · intro b hb k x hk hbx
    rcases hcase hk with ⟨rfl, rfl⟩ | ⟨-, -, hk⟩
    · obtain ⟨j, y, hj, -, hby, -⟩ := hblock hbx
      exact h.held_free b hb hj hby
    · exact h.held_free b hb hk hbx

/-- `append_to_anode_chain` on two objects of one kind. -/
theorem post_appendToAnodeChain (h : S.Owned T held) {p q : ℕ} {n m : Node} (hp : T p = some n)
    (hq : T q = some m) (hpq : p ≠ q) (hkind : m.isDir = n.isDir) (hq' : q < U32)
    (hdisk : S.disk.Linked p n.chain) :
    Post (appendToAnodeChain p q) (fun _ S' => S'.Owned (Function.update (Function.update T q none) p
        (some ⟨n.isDir, relink q m.chain n.chain⟩)) held ∧
      ∃ tail ∈ n.chain, S' = setSlot tail.nr (.ofNat tail.clustersize tail.blocknr q) S)
      anyError S := by
  unfold appendToAnodeChain
  refine (post_getChain p).seq ?_
  rintro c _ ⟨rfl, hc, -⟩
  obtain rfl := hc.unique hdisk
  cases htail : n.chain.getLast? with
  | none => exact post_fail
  | some tail =>
      have hmem : tail ∈ n.chain := List.mem_of_getLast? htail
      refine (post_writeAnodeFields (hdisk.mem hmem) _ _ _).mono ?_ fun _ _ h => h
      rintro _ _ rfl
      exact ⟨h.append hp hq hpq hkind hq' htail, tail, hmem, rfl⟩

/-! ## Adding an entry -/

/-- The block keeps the place that its header names. -/
def SameHead (S S' : Store) (b : ℕ) : Prop :=
  ∀ d, S.live.dir b = some d →
    ∃ d', S'.live.dir b = some d' ∧ d'.anodenr = d.anodenr ∧ d'.parent = d.parent

/-- The directory `p` with the blocks of `n` got the entry `e`; it is `n'` now. -/
structure Added (S S' : Store) (T T' : Owners) (held : List ℕ) (p : ℕ) (n n' : Node) (e : Entry) :
    Prop where
  owned : S'.Owned T' held
  geo : S'.geo = S.geo
  disk : S'.disk = S.disk
  dirs : ∀ b, S.Taken b → b ∉ n.blocks → S'.live.dir b = S.live.dir b
  others : ∀ q, q ≠ p → T' q = T q
  self : T' p = some n'
  isDir : n'.isDir = true
  grown : ∃ more, n'.blocks = n.blocks ++ more
  entries : ∃ l₁ l₂, S.live.listing n.blocks = l₁ ++ l₂ ∧ S'.live.listing n'.blocks = l₁ ++ e :: l₂
  heads : ∀ b ∈ n'.blocks, (b ∈ n.blocks ∧ SameHead S S' b) ∨
    (¬ S.HasSpace n.blocks e.size ∧ ∃ d, S'.live.dir b = some d ∧ d.anodenr = p ∧ d.parent = p)
  data : S'.data = S.data
  free : S'.live.free = S.live.free

/-- An entry placed in a block of the directory. -/
theorem added_of_placed (h : S.Owned T held) {p b : ℕ} {n : Node} {d : DirBlock} {e : Entry}
    (hp : T p = some n) (hdir : n.isDir = true) (hb : b ∈ n.blocks) (hd : S.live.dir b = some d) :
    Added S (setDir b (some { d with entries := d.entries ++ [e] }) (tick S)) T T held p n n e := by
  have hst := (stays_tick S (· = b)).trans
    (stays_setDir (S := tick S) b { d with entries := d.entries ++ [e] })
  refine
    { owned := h.stays hst (h.sane.tick.setDir _ _)
      geo := rfl
      disk := rfl
      dirs := fun c hc hcn => hst.dirs c hc fun hcb => hcn (hcb ▸ hb)
      others := fun _ _ => rfl
      self := hp
      isDir := hdir
      grown := ⟨[], (List.append_nil _).symm⟩
      entries := ?_
      heads := fun c hc => Or.inl ⟨hc, fun d' hd' => ?_⟩
      data := rfl
      free := rfl }
  · obtain ⟨l₁, l₂, hl⟩ := List.append_of_mem hb
    have hnodup := h.block_nodup hp
    rw [hl] at hnodup ⊢
    obtain ⟨h₁, h₂⟩ := @Meta.listing_split S.live
      (setDir b (some { d with entries := d.entries ++ [e] }) (tick S)).live l₁ l₂ b hnodup
      fun c _ hc => dir_setDir_ne hc
    have hold : S.live.entriesAt b = d.entries := by
      rw [Meta.entriesAt, hd]
      rfl
    have hnew : (setDir b (some { d with entries := d.entries ++ [e] }) (tick S)).live.entriesAt b =
        d.entries ++ [e] := by
      rw [Meta.entriesAt, dir_setDir]
      rfl
    refine ⟨S.live.listing l₁ ++ d.entries, S.live.listing l₂, ?_, ?_⟩
    · rw [h₁, hold, List.append_assoc]
    · rw [h₂, hnew]
      simp only [List.append_assoc, List.singleton_append]
  · by_cases hcb : c = b
    · subst hcb
      rw [hd] at hd'
      cases hd'
      exact ⟨_, dir_setDir _ _ _, rfl, rfl⟩
    · exact ⟨d', (dir_setDir_ne hcb).trans hd', rfl, rfl⟩

/-- A directory object's blocks can be read and written. -/
theorem Owned.dirBlock (h : S.Owned T held) {p b : ℕ} {n : Node} (hp : T p = some n)
    (hdir : n.isDir = true) (hb : b ∈ n.blocks) : (S.live.dir b).isSome ∧ S.Usable b :=
  ⟨h.content hp hdir hb, (h.taken hp hb).usable ((h.kind hp hb).mp hdir)⟩

/-- A new directory block with the entry, appended to the chain. -/
theorem post_extend (h : S.Owned T held) {p k : ℕ} {n : Node} (hp : T p = some n)
    (hdir : n.isDir = true) (hdisk : S.disk.Linked p n.chain) (hroom : S.Room (k + 1)) (e : Entry)
    (hno : ¬ S.HasSpace n.blocks e.size) :
    Post (do
      let newBlk ← allocReservedBlock
      let _ ← nextDatestamp
      writeDir newBlk ⟨p, p, [e]⟩
      extendAnodeChain p newBlk)
      (fun _ S' => ∃ T' n', Added S S' T T' held p n n' e) anyError S := by
  refine post_allocReservedBlock.seq ?_
  rintro _ _ ⟨j, rfl, hj, rfl⟩
  obtain ⟨htaken, husable⟩ := taken_takeReserved h.sane hj
  have hfree := not_taken_of_free h.sane hj
  have hst₁ := stays_takeReserved (S := S) j (· ∈ n.blocks)
  have hown₁ := h.hold hst₁ (h.sane.takeReserved hj) (List.nodup_singleton _) fun b hb => by
    rcases List.mem_singleton.mp hb with rfl
    exact ⟨htaken, hfree⟩
  generalize hblk : Geometry.blockAt j = blk at *
  refine post_tick.seq ?_
  rintro _ _ rfl
  refine (post_writeDir (S := tick (takeReserved j S)) husable _).seq ?_
  rintro _ _ rfl
  have hblk_lt : blk < S.geo.dataStart := Taken.lt husable.1
  have hst₂ : (takeReserved j S).Stays (setDir blk (some ⟨p, p, [e]⟩) (tick (takeReserved j S)))
      (· = blk) := (stays_tick _ _).trans (stays_setDir blk _)
  have hown₂ := hown₁.stays hst₂ (hown₁.sane.tick.setDir _ _)
  have hdir₂ : (setDir blk (some ⟨p, p, [e]⟩) (tick (takeReserved j S))).live.dir blk =
      some ⟨p, p, [e]⟩ := dir_setDir _ _ _
  have hsame₂ : ∀ c, c ≠ blk → (setDir blk (some ⟨p, p, [e]⟩) (tick (takeReserved j S))).live.dir c =
      S.live.dir c := fun c hc => dir_setDir_ne hc
  have hroom₂ : (setDir blk (some ⟨p, p, [e]⟩) (tick (takeReserved j S))).Room (k + 1) :=
    hroom.congr rfl rfl rfl
  have hblk_not : ∀ b ∈ n.blocks, b ≠ blk := by
    rintro b hb rfl
    exact hfree (h.taken hp hb)
  have hst₂' : S.Stays (setDir blk (some ⟨p, p, [e]⟩) (tick (takeReserved j S)))
      (· ∈ n.blocks) := by
    have hne : ∀ c, S.Taken c → c ≠ blk := by
      rintro c hc rfl
      exact hfree hc
    refine ⟨rfl, rfl, fun c hc => hst₂.taken c (hst₁.taken c hc), fun c hc hd => ?_,
      fun c hc _ => hsame₂ c (hne c hc), fun nr a ha hc => ?_⟩
    · rw [hsame₂ c (hne c hc)]
      exact hd
    · exact hst₂.anode nr a (hst₁.anode nr a ha hc) hc
  generalize hS₂ : setDir blk (some ⟨p, p, [e]⟩) (tick (takeReserved j S)) = S₂ at *
  unfold extendAnodeChain
  have hu : U32 = 4294967296 := rfl
  refine (post_allocAnode hown₂.sane (not_isFree_ofNat (by omega) (by omega)) hroom₂).seq ?_
  rintro nr S₃ ⟨hnew, hsane₃, hroom₃, hst₃⟩
  have hown₃ := hown₂.stays (hst₃ fun _ => False) hsane₃
  have hgeo₂ : S₂.geo = S.geo := hst₂'.geo
  have hgeo₃ : S₃.geo = S.geo := (hst₃ fun _ => False).geo.trans hgeo₂
  have hdisk₃ : S₃.disk = S.disk := (hst₃ fun _ => False).disk.trans hst₂'.disk
  have hsize := S.geo.disksize_lt
  have hstart := S.geo.dataStart_lt
  have hfirst : ANODE_USERFIRST = 6 := rfl
  have hpos := hnew.pos
  have hget := hnew.get
  rw [anode_ofNat (by omega) (by omega) (by omega)] at hget
  have hnr : nr < U32 := hsane₃.anode_lt hget
  have hnone := hown₂.none_of_unused hnew.unused (by omega)
  have hpnr : p ≠ nr := by
    rintro rfl
    rw [hp] at hnone
    cases hnone
  have htaken₂ : S₂.Taken blk := hst₂.taken blk htaken
  have hdir₃ : S₃.live.dir blk = some ⟨p, p, [e]⟩ :=
    ((hst₃ fun _ => False).dirs blk htaken₂ fun h => h).trans hdir₂
  have hown₄ := @Owned.add _ _ _ _ hown₃ nr ⟨true, [⟨1, blk, 0, nr⟩]⟩ (by omega)
    ⟨by show nr ≠ 0; omega, hget, rfl⟩
    (fun a ha => by rcases List.mem_singleton.mp ha with rfl; exact Nat.one_ne_zero)
    (fun a ha _ _ _ hk hc => by
      rcases List.mem_singleton.mp ha with rfl
      exact hown₂.unowned hk hc hnew.unused)
    (List.nodup_singleton _) rfl
    (fun b hb => by
      rcases List.mem_singleton.mp hb with rfl
      rw [hgeo₃]
      exact ⟨fun _ => hblk_lt, fun _ => rfl⟩)
    fun _ b hb => by
      rcases List.mem_singleton.mp hb with rfl
      rw [hdir₃]
      rfl
  have hp₄ : Function.update T nr (some ⟨true, [⟨1, blk, 0, nr⟩]⟩) p = some n := by
    rw [Function.update_of_ne hpnr, hp]
  refine (post_appendToAnodeChain hown₄ hp₄ (Function.update_self _ _ _) hpnr hdir.symm hnr
    (hdisk₃ ▸ hdisk)).mono ?_ fun _ _ h => h
  rintro _ S₄ ⟨hown₅, tail, htail, rfl⟩
  have hlast : (⟨n.isDir, relink nr [⟨1, blk, 0, nr⟩] n.chain⟩ : Node).blocks = n.blocks ++ [blk] :=
    chainBlocks_relink nr _ n.chain
  have hdirs : ∀ b, S.Taken b → S₃.live.dir b = S.live.dir b := by
    intro b hb
    have hne : b ≠ blk := by
      rintro rfl
      exact hfree hb
    exact ((hst₃ fun _ => False).dirs b (hst₂'.taken b hb) fun h => h).trans (hsame₂ b hne)
  have hentries : S₃.live.listing n.blocks = S.live.listing n.blocks :=
    Meta.listing_congr fun b hb => hdirs b (h.taken hp hb)
  refine ⟨_, ⟨n.isDir, relink nr [⟨1, blk, 0, nr⟩] n.chain⟩,
    { owned := hown₅
      geo := hgeo₃
      disk := hdisk₃
      dirs := fun b hb _ => hdirs b hb
      others := fun q hq => ?_
      self := Function.update_self _ _ _
      isDir := hdir
      grown := ⟨[blk], hlast⟩
      entries := ⟨S.live.listing n.blocks, [], (List.append_nil _).symm, ?_⟩
      heads := fun b hb => ?_
      data := hnew.data.trans ?_
      free := hnew.free.trans ?_ }⟩
  · rw [Function.update_of_ne hq]
    by_cases hqn : q = nr
    · rw [hqn, Function.update_self, hnone]
    · rw [Function.update_of_ne hqn, Function.update_of_ne hqn]
  · have hall : S₃.live.listing (n.blocks ++ [blk]) = S.live.listing n.blocks ++ [e] := by
      rw [Meta.listing_append, hentries, Meta.listing_single, Meta.entriesAt, hdir₃]
      rfl
    rw [hlast]
    exact hall
  · rw [hlast] at hb
    rcases List.mem_append.mp hb with hb | hb
    · refine Or.inl ⟨hb, fun d hd => ⟨d, ?_, rfl, rfl⟩⟩
      exact (hdirs b (h.taken hp hb)).trans hd
    · rcases List.mem_singleton.mp hb with rfl
      exact Or.inr ⟨hno, _, hdir₃, rfl, rfl⟩
  · rw [← hS₂]
    rfl
  · rw [← hS₂]
    rfl

/-- What `add_dir_entry` does in a directory. -/
theorem post_addDirEntry (h : S.Owned T held) {p : ℕ} {n : Node} (hp : T p = some n)
    (hdir : n.isDir = true) (hdisk : S.disk.Linked p n.chain) (name : Name) (ty : ℤ)
    (anode fsize prot : ℕ)
    (hroom : ∀ now, ¬ S.HasSpace n.blocks (Entry.build now name ty anode fsize prot).size → S.Room 1) :
    Post (addDirEntry p name ty anode fsize prot) (fun _ S' => ∃ now T' n',
      Added S S' T T' held p n n' (Entry.build now name ty anode fsize prot)) anyError S := by
  unfold addDirEntry
  have hclock : Post currentAmigaDatestamp (fun now S' => S' = { S with asked := S.asked + 1 })
      anyError S := rfl
  refine hclock.seq ?_
  rintro now _ rfl
  have hst : S.Stays { S with asked := S.asked + 1 } fun _ => False := by
    refine stays_of_eq ?_ ?_ ?_ ?_ _ <;> rfl
  have hown := h.stays hst (h.sane.of_eq rfl rfl rfl rfl rfl rfl)
  generalize hS₀ : ({ S with asked := S.asked + 1 } : Store) = S₀ at *
  have hlive : S₀.live = S.live := by rw [← hS₀]
  have hdisk₀ : S₀.disk = S.disk := by rw [← hS₀]
  have hback : ∀ {S' T' n' e}, Added S₀ S' T T' held p n n' e → Added S S' T T' held p n n' e := by
    intro S' T' n' e ha
    subst hS₀
    exact ⟨ha.owned, ha.geo, ha.disk, ha.dirs, ha.others, ha.self, ha.isDir, ha.grown, ha.entries, ha.heads,
      ha.data, ha.free⟩
  refine (post_getChain p).seq ?_
  rintro c _ ⟨rfl, hc, -⟩
  rw [hdisk₀] at hc
  obtain rfl := hc.unique hdisk
  refine (post_addToBlocks _ (AnodeReader.chainBlocks n.chain)
    fun b hb => hown.dirBlock hp hdir hb).seq ?_
  rintro placed S₁ (⟨rfl, b, d, hb, hd, rfl⟩ | ⟨rfl, rfl, hno⟩)
  · exact post_pure ⟨now, T, n, hback (added_of_placed hown hp hdir hb hd)⟩
  · have hno' : ¬ S.HasSpace n.blocks (Entry.build now name ty anode fsize prot).size := by
      rintro ⟨b, hb, d, hd, hr⟩
      exact hno ⟨b, hb, d, hlive ▸ hd, hr⟩
    have hroom₁ := (hroom now hno').congr hdisk₀ (congrArg Meta.index hlive)
      (congrArg Meta.slot hlive)
    refine (post_extend (k := 0) hown hp hdir (hdisk₀ ▸ hdisk) hroom₁ _ hno).mono ?_ fun _ _ h => h
    rintro _ S' ⟨T', n', hadd⟩
    exact ⟨now, T', n', hback hadd⟩

/-! ## Changing an entry -/

theorem split_of_findIdx? {α : Type} {f : α → Bool} : ∀ {l : List α} {i : ℕ}, l.findIdx? f = some i →
    ∃ x e y, l = x ++ e :: y ∧ x.length = i ∧ f e = true ∧ ∀ z ∈ x, f z = false
  | [], _, h => by cases h
  | a :: l, i, h => by
      rw [List.findIdx?_cons] at h
      by_cases ha : f a = true
      · rw [if_pos ha] at h
        cases h
        exact ⟨[], a, l, rfl, rfl, ha, fun _ hz => absurd hz List.not_mem_nil⟩
      · rw [if_neg ha] at h
        obtain ⟨j, hj, rfl⟩ := Option.map_eq_some_iff.mp h
        obtain ⟨x, e, y, rfl, rfl, he, hx⟩ := split_of_findIdx? hj
        refine ⟨a :: x, e, y, rfl, rfl, he, fun z hz => ?_⟩
        rcases List.mem_cons.mp hz with rfl | hz
        · exact Bool.eq_false_iff.mpr ha
        · exact hx z hz

theorem modify_middle {α : Type} (f : α → α) (x : List α) (e : α) (y : List α) :
    (x ++ e :: y).modify x.length f = x ++ ([f e] ++ y) := by
  induction x with
  | nil => rfl
  | cons a x ih =>
      rw [List.length_cons, List.cons_append, List.modify_succ_cons, ih]
      rfl

/-- The entry matches the name. -/
def matchesName (name : Name) (e : Entry) : Bool := nameEqCi e.text name

theorem post_findDirEntryLoop (name : Name) (blks : List ℕ) :
    (∀ b ∈ blks, (S.live.dir b).isSome) →
    Post (findDirEntryLoop name blks) (fun r S' => S' = S ∧ ∃ l₁ l₂, blks = l₁ ++ r.1 :: l₂ ∧
      S.live.dir r.1 = some r.2.1 ∧ r.2.1.entries.findIdx? (matchesName name) = some r.2.2 ∧
      ∀ e ∈ S.live.listing l₁, matchesName name e = false) anyError S := by
  induction blks with
  | nil => exact fun _ => post_fail
  | cons b rest ih =>
      intro hblks
      unfold findDirEntryLoop
      refine (post_readDir (hblks b List.mem_cons_self)).seq ?_
      rintro d _ ⟨rfl, hd⟩
      have hfun : (fun e : Entry => nameEqCi e.text name) = matchesName name := rfl
      rw [hfun]
      cases hi : d.entries.findIdx? (matchesName name) with
      | some i =>
          exact post_pure ⟨rfl, [], rest, rfl, hd, hi, fun e he => absurd he List.not_mem_nil⟩
      | none =>
          refine (ih fun c hc => hblks c (List.mem_cons_of_mem b hc)).mono ?_ fun _ _ h => h
          rintro r S' ⟨rfl, l₁, l₂, rfl, hr, hj, hno⟩
          refine ⟨rfl, b :: l₁, l₂, rfl, hr, hj, fun e he => ?_⟩
          rcases List.mem_append.mp he with he | he
          · rw [Meta.entriesAt, hd] at he
            exact List.findIdx?_eq_none_iff.mp hi e he
          · exact hno e he

/-- The first entry called `name` in the directory with the blocks of `n` was replaced. -/
structure Edited (S S' : Store) (T : Owners) (held : List ℕ) (n : Node) (name : Name)
    (new : Entry → List Entry) : Prop where
  owned : S'.Owned T held
  geo : S'.geo = S.geo
  disk : S'.disk = S.disk
  dirs : ∀ b, b ∉ n.blocks → S'.live.dir b = S.live.dir b
  entries : ∃ l₁ e l₂, S.live.listing n.blocks = l₁ ++ e :: l₂ ∧ matchesName name e = true ∧
    (∀ x ∈ l₁, matchesName name x = false) ∧ S'.live.listing n.blocks = l₁ ++ (new e ++ l₂)
  heads : ∀ b, SameHead S S' b
  data : S'.data = S.data
  free : S'.live.free = S.live.free

/-- The first entry called `name` stands at position `i` of the block `b`. -/
structure Found (S : Store) (n : Node) (name : Name) (b : ℕ) (d : DirBlock) (i : ℕ) : Prop where
  split : ∃ l₁ l₂, n.blocks = l₁ ++ b :: l₂ ∧ ∀ e ∈ S.live.listing l₁, matchesName name e = false
  dir : S.live.dir b = some d
  first : d.entries.findIdx? (matchesName name) = some i

theorem post_findDirEntry (h : S.Owned T held) {p : ℕ} {n : Node} (hp : T p = some n)
    (hdir : n.isDir = true) {c : List Anode} (hdisk : S.disk.Linked p c)
    (hpre : ∃ more, n.blocks = AnodeReader.chainBlocks c ++ more) (name : Name) :
    Post (findDirEntry p name) (fun r S' => S' = S ∧ Found S n name r.1 r.2.1 r.2.2) anyError S := by
  obtain ⟨more, hmore⟩ := hpre
  unfold findDirEntry
  refine (post_getChain p).seq ?_
  rintro c' S₀ ⟨hS, hc, -⟩
  obtain rfl : S = S₀ := hS.symm
  obtain rfl := hc.unique hdisk
  refine (post_findDirEntryLoop name _ fun b hb => (h.dirBlock hp hdir (b := b) ?_).1).mono ?_
    fun _ _ h => h
  · rw [hmore]
    exact List.mem_append_left more hb
  rintro ⟨b, d, i⟩ S₀ ⟨hS, l₁, l₂, hblocks, hd, hi, hno⟩
  refine ⟨hS, ⟨l₁, l₂ ++ more, ?_, hno⟩, hd, hi⟩
  rw [hmore, hblocks, List.append_assoc]
  rfl

/-- Writing the block with the entry replaced. -/
theorem Found.edited {S₁ : Store} {p b i : ℕ} {n : Node} {name : Name} {d d' : DirBlock}
    {new : Entry → List Entry} (hf : Found S n name b d i) (h : S.Owned T held) (hp : T p = some n)
    (hgeo : S₁.geo = S.geo) (hdisk : S₁.disk = S.disk) (hlive : S₁.live = S.live)
    (hres : S₁.resFree = S.resFree) (hblocks : S₁.blocksfree = S.blocksfree)
    (hreserved : S₁.reservedFree = S.reservedFree) (hdata : S₁.data = S.data)
    (hedit : ∀ x e y, d.entries = x ++ e :: y → x.length = i → d'.entries = x ++ (new e ++ y))
    (hhead : d'.anodenr = d.anodenr ∧ d'.parent = d.parent) :
    Edited S (setDir b (some d') S₁) T held n name new := by
  obtain ⟨⟨l₁, l₂, hsplit, hno⟩, hd, hi⟩ := hf
  have hb : b ∈ n.blocks := by
    rw [hsplit]
    exact List.mem_append_right l₁ List.mem_cons_self
  have hst := (stays_of_eq hgeo hdisk hlive hres (· = b)).trans (stays_setDir (S := S₁) b d')
  have hsame : ∀ c, c ≠ b → (setDir b (some d') S₁).live.dir c = S.live.dir c := fun c hc => by
    rw [dir_setDir_ne hc, hlive]
  obtain ⟨x, e, y, hxy, hlen, he, hx⟩ := split_of_findIdx? hi
  refine
    { owned := h.stays hst ((h.sane.of_eq hgeo hdisk hlive hres hblocks hreserved).setDir _ _)
      geo := hgeo
      disk := hdisk
      dirs := fun c hc => hsame c fun hcb => hc (hcb ▸ hb)
      entries := ⟨S.live.listing l₁ ++ x, e, y ++ S.live.listing l₂, ?_, he, ?_, ?_⟩
      heads := fun c d₁ hd₁ => ?_
      data := hdata
      free := (congrArg Meta.free hlive : S₁.live.free = S.live.free) }
  · have hold : S.live.entriesAt b = x ++ e :: y := by
      rw [Meta.entriesAt, hd, ← hxy]
      rfl
    rw [hsplit, Meta.listing_append, List.append_assoc]
    show _ ++ (S.live.entriesAt b ++ S.live.listing l₂) = _
    rw [hold]
    simp only [List.append_assoc, List.cons_append]
  · intro z hz
    rcases List.mem_append.mp hz with hz | hz
    · exact hno z hz
    · exact hx z hz
  · have hnodup := h.block_nodup hp
    rw [hsplit] at hnodup ⊢
    have hlist := (@Meta.listing_split S.live (setDir b (some d') S₁).live l₁ l₂ b hnodup
      fun c _ hc => hsame c hc).2
    have hnew : (setDir b (some d') S₁).live.entriesAt b = x ++ (new e ++ y) := by
      rw [Meta.entriesAt, dir_setDir, ← hedit x e y hxy hlen]
      rfl
    rw [hlist, hnew]
    simp only [List.append_assoc]
  · by_cases hcb : c = b
    · subst hcb
      rw [hd] at hd₁
      cases hd₁
      exact ⟨_, dir_setDir _ _ _, hhead⟩
    · exact ⟨d₁, (hsame c hcb).trans hd₁, rfl, rfl⟩

/-- `remove_dir_entry` takes out the first entry of that name. -/
theorem post_removeDirEntry (h : S.Owned T held) {p : ℕ} {n : Node} (hp : T p = some n)
    (hdir : n.isDir = true) {c : List Anode} (hdisk : S.disk.Linked p c)
    (hpre : ∃ more, n.blocks = AnodeReader.chainBlocks c ++ more) (name : Name) :
    Post (removeDirEntry p name) (fun _ S' => Edited S S' T held n name fun _ => []) anyError S := by
  unfold removeDirEntry
  refine (post_findDirEntry h hp hdir hdisk hpre name).seq ?_
  rintro ⟨b, d, i⟩ S₀ ⟨hS, hfound⟩
  obtain rfl : S = S₀ := hS.symm
  dsimp only at hfound ⊢
  have hb := (h.dirBlock hp hdir (b := b) (by
    obtain ⟨l₁, l₂, hsplit, -⟩ := hfound.split
    rw [hsplit]
    exact List.mem_append_right l₁ List.mem_cons_self)).2
  refine post_tick.seq ?_
  rintro _ _ rfl
  refine (post_writeDir (S := tick S) hb _).mono ?_ fun _ _ h => h
  rintro _ _ rfl
  refine hfound.edited h hp rfl rfl rfl rfl rfl rfl rfl (fun x e y hxy hlen => ?_) ⟨rfl, rfl⟩
  show d.entries.eraseIdx i = _
  rw [hxy, ← hlen, List.eraseIdx_append_of_length_le (le_refl _), Nat.sub_self]
  rfl

/-- `update_dir_entry_size` changes the first entry of that name. -/
theorem post_updateDirEntrySize (h : S.Owned T held) {p : ℕ} {n : Node} (hp : T p = some n)
    (hdir : n.isDir = true) {c : List Anode} (hdisk : S.disk.Linked p c)
    (hpre : ∃ more, n.blocks = AnodeReader.chainBlocks c ++ more) (name : Name) (size : ℕ) :
    Post (updateDirEntrySize p name size) (fun _ S' => ∃ now,
      Edited S S' T held n name fun e => [e.setSize size now]) anyError S := by
  unfold updateDirEntrySize
  refine (post_findDirEntry h hp hdir hdisk hpre name).seq ?_
  rintro ⟨b, d, i⟩ S₀ ⟨hS, hfound⟩
  obtain rfl : S = S₀ := hS.symm
  dsimp only at hfound ⊢
  have hb := (h.dirBlock hp hdir (b := b) (by
    obtain ⟨l₁, l₂, hsplit, -⟩ := hfound.split
    rw [hsplit]
    exact List.mem_append_right l₁ List.mem_cons_self)).2
  have hclock : Post currentAmigaDatestamp (fun now S' => S' = { S with asked := S.asked + 1 })
      anyError S := rfl
  refine hclock.seq ?_
  rintro now _ rfl
  refine post_tick.seq ?_
  rintro _ _ rfl
  refine (post_writeDir (S := tick { S with asked := S.asked + 1 }) hb _).mono ?_ fun _ _ h => h
  rintro _ _ rfl
  refine ⟨now, hfound.edited h hp rfl rfl rfl rfl rfl rfl rfl (fun x e y hxy hlen => ?_) ⟨rfl, rfl⟩⟩
  show d.entries.modify i (Entry.setSize size now) = _
  rw [hxy, ← hlen]
  exact modify_middle _ x e y

end Store

end Pfs3
