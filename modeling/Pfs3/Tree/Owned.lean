import Pfs3.Store.Ops
import Pfs3.Store.Rep

/-!
# Ownership

Which anodes and blocks of a structured store belong to which object.  An object is a
directory or a file, named by the first anode of its chain; blocks that a call has allocated
and not yet put into a chain are *held*.
-/

namespace Pfs3

open ByteList Stop

/-! ## Chains -/

namespace Meta

/-- The anodes from `nr` to the end of the chain. -/
def Linked (m : Meta) : (nr : ℕ) → List Anode → Prop
  | nr, [] => nr = ANODE_EOF
  | nr, a :: rest => nr ≠ ANODE_EOF ∧ m.getAnode nr = .ok a ∧ Linked m a.next rest

variable {m : Meta} {nr : ℕ} {l : List Anode}

theorem getAnode_ok {a : Anode} (h : m.getAnode nr = .ok a) :
    m.index (nr / 65536) ≠ 0 ∧ nr % 65536 < SLOTS ∧ a = (m.slot nr).anode nr := by
  unfold getAnode at h
  split at h
  · cases h
  · rename_i hcond
    cases h
    exact ⟨fun h => hcond (Or.inl h), by omega, rfl⟩

theorem getAnode_of (h₁ : m.index (nr / 65536) ≠ 0) (h₂ : nr % 65536 < SLOTS) :
    m.getAnode nr = .ok ((m.slot nr).anode nr) := by
  unfold getAnode
  rw [if_neg (by omega)]

theorem getAnode_nr {a : Anode} (h : m.getAnode nr = .ok a) : a.nr = nr := by
  obtain ⟨-, -, rfl⟩ := getAnode_ok h
  rfl

theorem Linked.unique : ∀ {l l' : List Anode} {nr : ℕ}, m.Linked nr l → m.Linked nr l' → l = l'
  | [], [], _, _, _ => rfl
  | [], _ :: _, _, h, h' => absurd h h'.1
  | _ :: _, [], _, h, h' => absurd h' h.1
  | a :: l, a' :: l', nr, h, h' => by
      have ha : a = a' := by
        have heq := h.2.1.symm.trans h'.2.1
        cases heq
        rfl
      subst ha
      rw [Linked.unique h.2.2 h'.2.2]

/-- Every anode of a chain is read from its slot. -/
theorem Linked.mem {a : Anode} : ∀ {l : List Anode} {nr : ℕ}, m.Linked nr l → a ∈ l →
    m.getAnode a.nr = .ok a
  | b :: l, nr, h, ha => by
      rcases List.mem_cons.mp ha with rfl | ha
      · rw [getAnode_nr h.2.1]
        exact h.2.1
      · exact Linked.mem h.2.2 ha

/-- A chain depends on its own slots only. -/
theorem Linked.congr {m' : Meta} : ∀ {l : List Anode} {nr : ℕ}, m.Linked nr l →
    (∀ a ∈ l, m'.getAnode a.nr = m.getAnode a.nr) → m'.Linked nr l
  | [], _, h, _ => h
  | a :: l, nr, h, hsame => by
      have hnr := getAnode_nr h.2.1
      refine ⟨h.1, ?_, Linked.congr h.2.2 fun b hb => hsame b (List.mem_cons_of_mem a hb)⟩
      rw [← hnr, hsame a List.mem_cons_self, hnr]
      exact h.2.1

/-- The head of a chain that is not empty. -/
theorem Linked.head {a : Anode} (h : m.Linked nr (a :: l)) : a.nr = nr := getAnode_nr h.2.1

theorem linked_of_loop (n : ℕ) : ∀ {seen : List ℕ} {nr : ℕ} {l : List Anode},
    m.getChainLoop n seen nr = .ok l →
    m.Linked nr l ∧ (l.map Anode.nr).Nodup ∧ ∀ a ∈ l, a.nr ∉ seen := by
  induction n with
  | zero =>
      intro seen nr l h
      unfold getChainLoop at h
      split at h
      · rename_i hnr
        cases h
        exact ⟨hnr, List.nodup_nil, fun _ h => absurd h List.not_mem_nil⟩
      · split at h <;> cases h
  | succ n ih =>
      intro seen nr l h
      unfold getChainLoop at h
      split at h
      · rename_i hnr
        cases h
        exact ⟨hnr, List.nodup_nil, fun _ h => absurd h List.not_mem_nil⟩
      · split at h
        · cases h
        · rename_i hne hseen
          cases ha : m.getAnode nr with
          | error e =>
              rw [ha] at h
              cases h
          | ok a =>
              rw [ha] at h
              cases hr : m.getChainLoop n (nr :: seen) a.next with
              | error e =>
                  have hstop : (Except.error e : Reader (List Anode)) = .ok l := by
                    rw [← h]
                    show _ = (m.getChainLoop n (nr :: seen) a.next >>= fun rest => pure (a :: rest))
                    rw [hr]
                    rfl
                  cases hstop
              | ok rest =>
                  have hl : l = a :: rest := by
                    have hok : (Except.ok (a :: rest) : Reader (List Anode)) = .ok l := by
                      rw [← h]
                      show _ = (m.getChainLoop n (nr :: seen) a.next >>= fun rest =>
                        pure (a :: rest))
                      rw [hr]
                      rfl
                    cases hok
                    rfl
                  subst hl
                  obtain ⟨hlinked, hnodup, hout⟩ := ih hr
                  have hnr := getAnode_nr ha
                  refine ⟨⟨hne, ha, hlinked⟩, ?_, fun b hb => ?_⟩
                  · rw [List.map_cons]
                    refine List.nodup_cons.mpr ⟨fun hmem => ?_, hnodup⟩
                    obtain ⟨b, hb, hbn⟩ := List.mem_map.mp hmem
                    exact hout b hb (by rw [hbn, hnr]; exact List.mem_cons_self)
                  · rcases List.mem_cons.mp hb with rfl | hb
                    · rw [hnr]
                      exact hseen
                    · exact fun hmem => hout b hb (List.mem_cons_of_mem nr hmem)

/-- What a chain read without error is. -/
theorem linked_of_getChain (h : m.getChain nr = .ok l) :
    m.Linked nr l ∧ (l.map Anode.nr).Nodup := by
  obtain ⟨h₁, h₂, -⟩ := linked_of_loop MAX_CHAIN_LEN h
  exact ⟨h₁, h₂⟩

theorem getChainLoop_not_stuck (n : ℕ) : ∀ (seen : List ℕ) (nr : ℕ),
    m.getChainLoop n seen nr ≠ .error .stuck := by
  induction n with
  | zero =>
      intro seen nr h
      unfold getChainLoop at h
      split at h
      · cases h
      · split at h <;> cases h
  | succ n ih =>
      intro seen nr h
      unfold getChainLoop at h
      split at h
      · cases h
      · split at h
        · cases h
        · unfold getAnode at h
          split at h
          · cases h
          · cases hr : m.getChainLoop n (nr :: seen) ((m.slot nr).anode nr).next with
            | error e =>
                rw [ok_bind, hr] at h
                have he : e = .stuck := by
                  cases h
                  rfl
                rw [he] at hr
                exact ih _ _ hr
            | ok rest =>
                rw [ok_bind, hr] at h
                cases h

end Meta

/-! ## Objects -/

/-- An object of the volume. -/
structure Node where
  isDir : Bool
  chain : List Anode

/-- The blocks of an object in order. -/
def Node.blocks (n : Node) : List ℕ := AnodeReader.chainBlocks n.chain

/-- The objects, by the first anode of their chain. -/
abbrev Owners := ℕ → Option Node

namespace Store

/-- The bitmaps show the block as used. -/
def Taken (S : Store) (b : ℕ) : Prop :=
  (S.geo.IsDynamic b ∧ (∀ s, S.live.index s ≠ b) ∧ ∀ k, b = Geometry.blockAt k → S.resFree k = false) ∨
  (S.geo.dataStart ≤ b ∧ b < S.geo.disksize ∧ S.live.free (b - S.geo.dataStart) = false)

/-- The free reserved blocks. -/
def freeReserved (S : Store) : List ℕ := (List.range S.geo.numreserved).filter S.resFree

/-- What every successful call keeps: only blocks without any other use are free, anode blocks
are dynamic blocks, and the counters count the free blocks. -/
structure Sane (S : Store) : Prop where
  reserve : ∀ k, S.resFree k = true → S.geo.base ≤ k ∧ k < S.geo.numreserved ∧
    ∀ s, S.live.index s ≠ Geometry.blockAt k
  index : ∀ s, S.live.index s ≠ 0 → s < 253 ∧ S.geo.IsDynamic (S.live.index s) ∧
    ∀ k, S.live.index s = Geometry.blockAt k → S.resFree k = false
  disk : ∀ s, S.disk.index s ≠ 0 → S.live.index s = S.disk.index s
  blocks : S.blocksfree = S.freeBlocks.length
  reserved : S.reservedFree = S.freeReserved.length
  bound : ∀ r, S.live.free r = true → r < S.geo.dataBlocks

/-- Nothing in use is lost from `S` to `S'`; directory blocks with `X` may get other entries. -/
structure Stays (S S' : Store) (X : ℕ → Prop) : Prop where
  geo : S'.geo = S.geo
  disk : S'.disk = S.disk
  taken : ∀ b, S.Taken b → S'.Taken b
  content : ∀ b, S.Taken b → (S.live.dir b).isSome → (S'.live.dir b).isSome
  dirs : ∀ b, S.Taken b → ¬ X b → S'.live.dir b = S.live.dir b
  anode : ∀ nr a, S.live.getAnode nr = .ok a → a.clustersize ≠ 0 → S'.live.getAnode nr = .ok a

/-- The anode `nr` is in no use. -/
def Unused (S : Store) (nr : ℕ) : Prop := ∀ a, S.live.getAnode nr = .ok a → a.clustersize = 0

/-- The objects `T` own their anodes and blocks, each at one place only, and nobody owns the
blocks `held`. -/
structure Owned (S : Store) (T : Owners) (held : List ℕ) : Prop where
  sane : S.Sane
  linked : ∀ {h n}, T h = some n → S.live.Linked h n.chain
  used : ∀ {h n a}, T h = some n → a ∈ n.chain → a.clustersize ≠ 0
  anode_inj : ∀ {h n h' n' a a'}, T h = some n → T h' = some n' → a ∈ n.chain → a' ∈ n'.chain →
    a.nr = a'.nr → h = h'
  anode_nodup : ∀ {h n}, T h = some n → (n.chain.map Anode.nr).Nodup
  taken : ∀ {h n b}, T h = some n → b ∈ n.blocks → S.Taken b
  kind : ∀ {h n b}, T h = some n → b ∈ n.blocks → (n.isDir = true ↔ b < S.geo.dataStart)
  content : ∀ {h n b}, T h = some n → n.isDir = true → b ∈ n.blocks → (S.live.dir b).isSome
  block_inj : ∀ {h n h' n' b}, T h = some n → T h' = some n' → b ∈ n.blocks → b ∈ n'.blocks → h = h'
  block_nodup : ∀ {h n}, T h = some n → n.blocks.Nodup
  held_taken : ∀ b ∈ held, S.Taken b
  held_free : ∀ b ∈ held, ∀ {h n}, T h = some n → b ∉ n.blocks
  held_nodup : held.Nodup

namespace Stays

variable {S S' S'' : Store} {X Y : ℕ → Prop}

theorem refl (S : Store) (X : ℕ → Prop) : S.Stays S X :=
  ⟨rfl, rfl, fun _ h => h, fun _ _ h => h, fun _ _ _ => rfl, fun _ _ h _ => h⟩

theorem trans (h : S.Stays S' X) (h' : S'.Stays S'' X) : S.Stays S'' X where
  geo := h'.geo.trans h.geo
  disk := h'.disk.trans h.disk
  taken b hb := h'.taken b (h.taken b hb)
  content b hb hd := h'.content b (h.taken b hb) (h.content b hb hd)
  dirs b hb hx := (h'.dirs b (h.taken b hb) hx).trans (h.dirs b hb hx)
  anode nr a ha hc := h'.anode nr a (h.anode nr a ha hc) hc

theorem mono (h : S.Stays S' X) (hXY : ∀ b, X b → Y b) : S.Stays S' Y :=
  ⟨h.geo, h.disk, h.taken, h.content, fun b hb hy => h.dirs b hb fun hx => hy (hXY b hx), h.anode⟩

/-- A chain of anodes in use stays. -/
theorem linked (h : S.Stays S' X) {nr : ℕ} {l : List Anode} (hl : S.live.Linked nr l)
    (hused : ∀ a ∈ l, a.clustersize ≠ 0) : S'.live.Linked nr l :=
  hl.congr fun a ha => by
    have hget := hl.mem ha
    rw [h.anode a.nr a hget (hused a ha), hget]

/-- What was in no use before a step that loses nothing. -/
theorem unused (h : S.Stays S' X) {nr : ℕ} (hnr : S'.Unused nr) : S.Unused nr := by
  intro a ha
  by_contra hne
  exact hne (hnr a (h.anode nr a ha hne))

end Stays

variable {S S' : Store} {T : Owners} {held : List ℕ} {X : ℕ → Prop}

theorem Owned.stays (h : S.Owned T held) (hstay : S.Stays S' X) (hsane : S'.Sane) :
    S'.Owned T held where
  sane := hsane
  linked hn := hstay.linked (h.linked hn) fun _ ha => h.used hn ha
  used := h.used
  anode_inj := h.anode_inj
  anode_nodup := h.anode_nodup
  taken hn hb := hstay.taken _ (h.taken hn hb)
  kind hn hb := hstay.geo ▸ h.kind hn hb
  content hn hd hb := hstay.content _ (h.taken hn hb) (h.content hn hd hb)
  block_inj := h.block_inj
  block_nodup := h.block_nodup
  held_taken b hb := hstay.taken b (h.held_taken b hb)
  held_free := h.held_free
  held_nodup := h.held_nodup

/-- Fewer objects own less. -/
theorem Owned.forget (h : S.Owned T held) {T' : Owners} (hT : ∀ a n, T' a = some n → T a = some n) :
    S.Owned T' held where
  sane := h.sane
  linked hn := h.linked (hT _ _ hn)
  used hn := h.used (hT _ _ hn)
  anode_inj hn hn' := h.anode_inj (hT _ _ hn) (hT _ _ hn')
  anode_nodup hn := h.anode_nodup (hT _ _ hn)
  taken hn := h.taken (hT _ _ hn)
  kind hn := h.kind (hT _ _ hn)
  content hn := h.content (hT _ _ hn)
  block_inj hn hn' := h.block_inj (hT _ _ hn) (hT _ _ hn')
  block_nodup hn := h.block_nodup (hT _ _ hn)
  held_taken := h.held_taken
  held_free b hb := fun hn => h.held_free b hb (hT _ _ hn)
  held_nodup := h.held_nodup

/-- An anode that is in no use belongs to nobody. -/
theorem Owned.unowned (h : S.Owned T held) {a nr : ℕ} {n : Node} {an : Anode} (hn : T a = some n)
    (ha : an ∈ n.chain) (hnr : S.Unused nr) : an.nr ≠ nr := by
  rintro rfl
  exact h.used hn ha (hnr an ((h.linked hn).mem ha))

/-- Such an anode heads no object. -/
theorem Owned.none_of_unused (h : S.Owned T held) {nr : ℕ} (hnr : S.Unused nr) (h0 : nr ≠ 0) :
    T nr = none := by
  cases hn : T nr with
  | none => rfl
  | some n =>
      have hl := h.linked hn
      rcases hc : n.chain with _ | ⟨a, rest⟩
      · rw [hc] at hl
        exact absurd hl h0
      · rw [hc] at hl
        exact absurd hl.head (h.unowned hn (by rw [hc]; exact List.mem_cons_self) hnr)

/-- A new object takes over held blocks. -/
theorem Owned.add {bs : List ℕ} (h : S.Owned T (bs ++ held)) {nr : ℕ} {n : Node} (h0 : nr ≠ 0)
    (hl : S.live.Linked nr n.chain) (hused : ∀ a ∈ n.chain, a.clustersize ≠ 0)
    (hun : ∀ a ∈ n.chain, ∀ {k : ℕ} {n' : Node} {a' : Anode}, T k = some n' → a' ∈ n'.chain →
      a'.nr ≠ a.nr) (hnodup : (n.chain.map Anode.nr).Nodup) (hblocks : n.blocks = bs)
    (hkind : ∀ b ∈ bs, (n.isDir = true ↔ b < S.geo.dataStart))
    (hcontent : n.isDir = true → ∀ b ∈ bs, (S.live.dir b).isSome) :
    S.Owned (Function.update T nr (some n)) held := by
  have hcase : ∀ {k m}, Function.update T nr (some n) k = some m →
      (k = nr ∧ m = n) ∨ (k ≠ nr ∧ T k = some m) := by
    intro k m hk
    by_cases hkn : k = nr
    · subst hkn
      rw [Function.update_self] at hk
      cases hk
      exact Or.inl ⟨rfl, rfl⟩
    · rw [Function.update_of_ne hkn] at hk
      exact Or.inr ⟨hkn, hk⟩
  have hmem : ∀ b ∈ n.blocks, b ∈ bs ++ held := fun b hb =>
    List.mem_append_left held (hblocks ▸ hb)
  have happ := List.nodup_append.mp h.held_nodup
  refine ⟨h.sane, ?_, ?_, ?_, ?_, ?_, ?_, ?_, ?_, ?_, ?_, ?_, happ.2.1⟩
  · intro k m hk
    rcases hcase hk with ⟨rfl, rfl⟩ | ⟨-, hk⟩
    · exact hl
    · exact h.linked hk
  · intro k m a hk ha
    rcases hcase hk with ⟨rfl, rfl⟩ | ⟨-, hk⟩
    · exact hused a ha
    · exact h.used hk ha
  · intro k m k' m' a a' hk hk' ha ha' heq
    rcases hcase hk with ⟨rfl, rfl⟩ | ⟨hne, h₁⟩ <;> rcases hcase hk' with ⟨rfl, rfl⟩ | ⟨hne', h₂⟩
    · rfl
    · exact absurd heq.symm (hun a ha h₂ ha')
    · exact absurd heq (hun a' ha' h₁ ha)
    · exact h.anode_inj h₁ h₂ ha ha' heq
  · intro k m hk
    rcases hcase hk with ⟨rfl, rfl⟩ | ⟨-, hk⟩
    · exact hnodup
    · exact h.anode_nodup hk
  · intro k m b hk hb
    rcases hcase hk with ⟨rfl, rfl⟩ | ⟨-, hk⟩
    · exact h.held_taken b (hmem b hb)
    · exact h.taken hk hb
  · intro k m b hk hb
    rcases hcase hk with ⟨rfl, rfl⟩ | ⟨-, hk⟩
    · exact hkind b (hblocks ▸ hb)
    · exact h.kind hk hb
  · intro k m b hk hd hb
    rcases hcase hk with ⟨rfl, rfl⟩ | ⟨-, hk⟩
    · exact hcontent hd b (hblocks ▸ hb)
    · exact h.content hk hd hb
  · intro k m k' m' b hk hk' hb hb'
    rcases hcase hk with ⟨rfl, rfl⟩ | ⟨hne, h₁⟩ <;> rcases hcase hk' with ⟨rfl, rfl⟩ | ⟨hne', h₂⟩
    · rfl
    · exact absurd hb' (h.held_free b (hmem b hb) h₂)
    · exact absurd hb (h.held_free b (hmem b hb') h₁)
    · exact h.block_inj h₁ h₂ hb hb'
  · intro k m hk
    rcases hcase hk with ⟨rfl, rfl⟩ | ⟨-, hk⟩
    · rw [hblocks]
      exact happ.1
    · exact h.block_nodup hk
  · exact fun b hb => h.held_taken b (List.mem_append_right bs hb)
  · intro b hb k m hk
    rcases hcase hk with ⟨rfl, rfl⟩ | ⟨-, hk⟩
    · rw [hblocks]
      exact fun hbs => happ.2.2 b hbs b hb rfl
    · exact h.held_free b (List.mem_append_right bs hb) hk

end Store

end Pfs3
