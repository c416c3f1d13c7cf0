import Pfs3.Blocks.Slots

/-!
# Chains of anodes

The chain that `get_chain` follows, and what `append_to_anode_chain` and `extend_anode_chain` make
of it: the same anodes with the new one behind them.
-/

namespace Pfs3

open ByteList BlockCache Stop

namespace AnodeReader

/-! ## Chains -/

variable {r : AnodeReader} {view view' : ℕ → Except Fault Bytes}

/-- The anodes from `nr` on, linked up to the end mark. -/
def IsChain (r : AnodeReader) (view : ℕ → Except Fault Bytes) : List Anode → ℕ → Prop
  | [], nr => nr = ANODE_EOF
  | an :: rest, nr => nr ≠ ANODE_EOF ∧ r.anodeIn view nr = .ok an ∧ r.IsChain view rest an.next

theorem nr_of_anodeIn {nr : ℕ} {an : Anode} (h : r.anodeIn view nr = .ok an) : an.nr = nr := by
  unfold anodeIn at h
  split at h
  · cases h
  · split at h
    · cases h
    · split at h
      · cases h
      · unfold anodeAt at h
        split at h
        · cases h
        · split at h
          · cases h
          · split at h
            · cases h
            · cases h
              rfl

theorem IsChain.unique : ∀ {chain chain' : List Anode} {nr : ℕ}, r.IsChain view chain nr →
    r.IsChain view chain' nr → chain = chain'
  | [], [], _, _, _ => rfl
  | [], _ :: _, _, h, h' => absurd h h'.1
  | _ :: _, [], _, h, h' => absurd h' h.1
  | an :: rest, an' :: rest', nr, h, h' => by
      have heq : an = an' := Except.ok.inj (h.2.1.symm.trans h'.2.1)
      subst heq
      rw [h.2.2.unique h'.2.2]

/-- The rest of a chain, from one of its anodes on. -/
theorem IsChain.suffix : ∀ {before after : List Anode} {an : Anode} {nr : ℕ},
    r.IsChain view (before ++ an :: after) nr → r.IsChain view (an :: after) an.nr
  | [], after, an, nr, h => by
      rw [nr_of_anodeIn h.2.1]
      exact h
  | _ :: before, after, an, nr, h => (show r.IsChain view (before ++ an :: after) _ from h.2.2).suffix

/-- A chain that ends visits no anode twice. -/
theorem IsChain.nodup : ∀ {chain : List Anode} {nr : ℕ}, r.IsChain view chain nr →
    (chain.map Anode.nr).Nodup
  | [], _, _ => List.nodup_nil
  | an :: rest, nr, h => by
      refine List.nodup_cons.mpr ⟨fun hmem => ?_, h.2.2.nodup⟩
      obtain ⟨an', hmem', hnr⟩ := List.mem_map.mp hmem
      obtain ⟨before, after, rfl⟩ := List.mem_iff_append.mp hmem'
      have hsuffix := h.2.2.suffix
      have hwhole : r.IsChain view (an :: (before ++ an' :: after)) an.nr := by
        rw [nr_of_anodeIn h.2.1]
        exact h
      rw [hnr] at hsuffix
      have hlen := congrArg List.length (hwhole.unique hsuffix)
      simp only [List.length_cons, List.length_append] at hlen
      omega

/-- The loop of `get_chain` on the blocks. -/
def chainIn (r : AnodeReader) (view : ℕ → Except Fault Bytes) :
    (n : ℕ) → (seen : List ℕ) → (nr : ℕ) → Except Fault (List Anode)
  | 0, seen, nr =>
      if nr = ANODE_EOF then .ok []
      else if nr ∈ seen then .error (.err (.invalidPartition s!"anode cycle at {nr}"))
      else .error (.err (.invalidPartition "anode chain too long"))
  | n + 1, seen, nr =>
      if nr = ANODE_EOF then .ok []
      else if nr ∈ seen then .error (.err (.invalidPartition s!"anode cycle at {nr}"))
      else
        match r.anodeIn view nr with
        | .error f => .error f
        | .ok an => (chainIn r view n (nr :: seen) an.next).map fun rest => an :: rest

theorem of_chainIn {chain : List Anode} (n : ℕ) : ∀ {seen : List ℕ} {nr : ℕ},
    r.chainIn view n seen nr = .ok chain → r.IsChain view chain nr ∧ chain.length ≤ n := by
  induction n generalizing chain with
  | zero =>
      intro seen nr h
      rw [chainIn] at h
      split at h
      · cases h
        exact ⟨‹_›, le_rfl⟩
      · split at h <;> cases h
  | succ n ih =>
      intro seen nr h
      rw [chainIn] at h
      by_cases hend : nr = ANODE_EOF
      · rw [if_pos hend] at h
        cases h
        exact ⟨hend, Nat.zero_le _⟩
      · rw [if_neg hend] at h
        split at h
        · cases h
        · split at h
          · cases h
          · rename_i an hread
            cases hrest : r.chainIn view n (nr :: seen) an.next with
            | error f =>
                rw [hrest] at h
                cases h
            | ok rest =>
                rw [hrest] at h
                cases h
                obtain ⟨hchain, hlen⟩ := ih hrest
                exact ⟨⟨hend, hread, hchain⟩, Nat.succ_le_succ hlen⟩

/-- A chain is followed to its end unless it is too long. -/
theorem IsChain.chainIn (n : ℕ) : ∀ {chain : List Anode} {seen : List ℕ} {nr : ℕ},
    r.IsChain view chain nr → (∀ an ∈ chain, an.nr ∉ seen) →
    r.chainIn view n seen nr = if chain.length ≤ n then .ok chain
      else .error (.err (.invalidPartition "anode chain too long")) := by
  induction n with
  | zero =>
      intro chain seen nr h hfresh
      rw [AnodeReader.chainIn]
      cases chain with
      | nil => exact if_pos h
      | cons an rest =>
          have hnr := hfresh an List.mem_cons_self
          rw [nr_of_anodeIn h.2.1] at hnr
          rw [if_neg h.1, if_neg hnr, if_neg (show ¬ (an :: rest).length ≤ 0 from Nat.not_succ_le_zero _)]
  | succ n ih =>
      intro chain seen nr h hfresh
      rw [AnodeReader.chainIn]
      cases chain with
      | nil =>
          rw [if_pos (show nr = ANODE_EOF from h)]
          exact (if_pos (Nat.zero_le _)).symm
      | cons an rest =>
          have hnr := hfresh an List.mem_cons_self
          have hnodup := h.nodup
          rw [List.map_cons, List.nodup_cons, nr_of_anodeIn h.2.1] at hnodup
          rw [nr_of_anodeIn h.2.1] at hnr
          rw [if_neg h.1, if_neg hnr, h.2.1]
          dsimp only
          rw [ih h.2.2 fun x hx hmem => ?_]
          · simp only [List.length_cons, Nat.add_le_add_iff_right]
            split <;> rfl
          · rcases List.mem_cons.mp hmem with hmem | hmem
            · exact hnodup.1 (List.mem_map.mpr ⟨x, hx, hmem⟩)
            · exact hfresh x (List.mem_cons_of_mem _ hx) hmem

/-- A chain with another end. -/
theorem IsChain.append : ∀ {init rest : List Anode} {tail : Anode} {nr m : ℕ},
    r.IsChain view (init ++ [tail]) nr →
    (∀ an ∈ init, r.anodeIn view' an.nr = .ok an) →
    r.anodeIn view' tail.nr = .ok { tail with next := m } → r.IsChain view' rest m →
    r.IsChain view' (init ++ { tail with next := m } :: rest) nr
  | [], _, _, _, _, h, _, htail, hrest => by
      refine ⟨h.1, ?_, hrest⟩
      rw [← nr_of_anodeIn h.2.1]
      exact htail
  | an :: init, _, _, _, _, h, hinit, htail, hrest => by
      have han := hinit an List.mem_cons_self
      rw [nr_of_anodeIn h.2.1] at han
      exact ⟨h.1, han, h.2.2.append (fun x hx => hinit x (List.mem_cons_of_mem _ hx)) htail hrest⟩

/-- A chain whose anodes stay. -/
theorem IsChain.congr : ∀ {chain : List Anode} {nr : ℕ}, r.IsChain view chain nr →
    (∀ an ∈ chain, r.anodeIn view' an.nr = .ok an) → r.IsChain view' chain nr
  | [], _, h, _ => h
  | an :: rest, nr, h, hsame => by
      have han := hsame an List.mem_cons_self
      rw [nr_of_anodeIn h.2.1] at han
      exact ⟨h.1, han, h.2.2.congr fun x hx => hsame x (List.mem_cons_of_mem _ hx)⟩

theorem getChainLoop_reads {dev : Device} {P : ℕ → Prop} (h : r.Valid)
    (hsuper : ∀ n, r.isLarge = true → r.superindex.getD n 0 ≠ 0 → P (r.superindex.getD n 0))
    (hindex : ∀ i b, r.indexIn (dev.readReserved r.reservedBlksize) i = .ok b → b ≠ 0 → P b)
    (hanode : ∀ s b, r.resolveIn (dev.readReserved r.reservedBlksize) s = .ok b → b ≠ 0 → P b)
    (n : ℕ) : ∀ (seen : List ℕ) (nr : ℕ), Reads (Shows dev r.reservedBlksize P) Eq
      (r.getChainLoop dev n seen nr)
      (raised (r.chainIn (dev.readReserved r.reservedBlksize) n seen nr)) := by
  induction n with
  | zero =>
      intro seen nr
      rw [getChainLoop, chainIn]
      split
      · exact reads_pure rfl
      · split
        · exact reads_throw
        · exact reads_throw
  | succ n ih =>
      intro seen nr
      rw [getChainLoop, chainIn]
      split
      · exact reads_pure rfl
      · split
        · exact reads_throw
        · have hread := getAnode_reads h hsuper hindex hanode nr
          cases ha : r.anodeIn (dev.readReserved r.reservedBlksize) nr with
          | error f =>
              rw [ha] at hread
              exact hread.fails
          | ok an =>
              rw [ha] at hread
              refine hread.seq ?_
              have hrest := ih (nr :: seen) an.next
              dsimp only
              cases hc : r.chainIn (dev.readReserved r.reservedBlksize) n (nr :: seen) an.next with
              | error f =>
                  rw [hc] at hrest
                  exact hrest.fails
              | ok rest =>
                  rw [hc] at hrest
                  exact hrest.seq (reads_pure rfl)

end AnodeReader

/-! ## One more anode at the end -/

namespace AnodeReader

variable {r : AnodeReader} {view view' : ℕ → Except Fault Bytes}

theorem IsChain.anodeIn : ∀ {chain : List Anode} {nr : ℕ}, r.IsChain view chain nr →
    ∀ an ∈ chain, r.anodeIn view an.nr = .ok an
  | [], _, _, an, han => absurd han List.not_mem_nil
  | x :: rest, nr, h, an, han => by
      rcases List.mem_cons.mp han with rfl | han
      · rw [nr_of_anodeIn h.2.1]
        exact h.2.1
      · exact h.2.2.anodeIn an han

/-- An anode that lies in blocks that did not change. -/
theorem anodeIn_of_same (hsame : ∀ p b, b ≠ 0 → r.placeIn view p = .ok b → view' b = view b)
    {nr : ℕ} {an : Anode} (h : r.anodeIn view nr = .ok an) : r.anodeIn view' nr = .ok an := by
  obtain ⟨b, data, hb, hp, hd, hslot⟩ := block_of_anodeIn h
  have hplace := placeIn_congr (r := r) (fun p b hb _ => hsame p b hb) (.anode (r.splitNr nr).1)
  rw [anodeIn_of_block hb (hplace.trans hp) ((hsame (.anode _) b hb hp).trans hd)]
  exact hslot

/-- The fields of an anode are 32 bits wide. -/
theorem lt_of_anodeIn {nr : ℕ} {an : Anode} (h : r.anodeIn view nr = .ok an) :
    an.clustersize < U32 ∧ an.blocknr < U32 := by
  obtain ⟨b, data, -, -, -, hslot⟩ := block_of_anodeIn h
  unfold anodeAt at hslot
  split at hslot
  · cases hslot
  · split at hslot
    · cases hslot
    · split at hslot
      · cases hslot
      · cases hslot
        exact ⟨be32_lt _ _, be32_lt _ _⟩

end AnodeReader

namespace Writer

/-- The anode `nr` has new fields, and nothing else changed. -/
structure PutAnode (w : Writer) (view view' : ℕ → Except Fault Bytes) (free : ℕ → Bool)
    (nr cs bn nx : ℕ) : Prop where
  reads : w.vol.anodes.anodeIn view' nr = .ok ⟨cs, bn, nx, nr⟩
  other : ∀ nr' an, nr' ≠ nr → w.vol.anodes.anodeIn view nr' = .ok an →
    w.vol.anodes.anodeIn view' nr' = .ok an
  outside : ∀ b, w.Outside view free b → w.Outside view' free b ∧ view' b = view b
  table : w.Table view' free

section Extend

variable {w w₁ w₂ : Writer} {view : ℕ → Except Fault Bytes} {free : ℕ → Bool}

theorem Ahead.writeAnodeFields (hw : w.Stable) (hx : w.Indexed) (hn : w.Numbered)
    (h : Ahead w w₁ view free) (ht : w.Table view free) {nr cs bn nx : ℕ} {an : Anode}
    (hold : w.vol.anodes.anodeIn w.blockOf nr = .ok an)
    (hview : w.vol.anodes.anodeIn view nr = .ok an)
    (hkeeps : ∀ s b, b ≠ 0 → w.vol.anodes.resolveIn w.blockOf s = .ok b →
      w.vol.anodes.resolveIn view s = .ok b)
    (hcs : cs < U32) (hbn : bn < U32) (hnx : nx < U32)
    (hrun : Writer.writeAnodeFields nr cs bn nx w₁ = .ok () w₂) :
    ∃ view', Ahead w w₂ view' free ∧ w.PutAnode view view' free nr cs bn nx := by
  obtain ⟨m, hrb⟩ := h.rootblock
  have hmode : w₁.vol.rootblock.isSplittedAnodes = w.vol.anodes.splitMode := by
    rw [hrb, ← hn.split]
    rfl
  have hsplit : (if w₁.vol.rootblock.isSplittedAnodes then (nr / 65536, nr % 65536)
      else (nr / w₁.anodesPerBlock, nr % w₁.anodesPerBlock)) = w.vol.anodes.splitNr nr := by
    rw [AnodeReader.splitNr, hmode, h.anodesPerBlock, hn.anodesPerBlock]
  obtain ⟨b, data, hb, hp, hd, hslot⟩ := AnodeReader.block_of_anodeIn hview
  obtain ⟨b', -, hb', hp', -⟩ := AnodeReader.block_of_anodeIn hold
  have hbb : b = b' := Except.ok.inj (hp.symm.trans (hkeeps _ _ hb' hp'))
  subst hbb
  unfold Writer.writeAnodeFields at hrun
  rw [bind_of_ok (rfl : (get : WriterM Writer) _ = .ok _ _)] at hrun
  split at hrun
  · cases hrun
  · rw [hsplit] at hrun
    rcases hso : w.vol.anodes.splitNr nr with ⟨s, o⟩
    rw [hso] at hrun hp hp' hslot
    dsimp only at hrun hp hp' hslot
    obtain ⟨n, w₃, hnr, hrun₁⟩ := of_bind_eq_ok hrun
    obtain ⟨hres, hahead⟩ := h.getAnodeBlockNr hw hx hnr
    obtain rfl : n = b := Except.ok.inj (hres.symm.trans hp')
    obtain ⟨data', w₄, hread, hrun₂⟩ := of_bind_eq_ok hrun₁
    obtain ⟨hstay, hdata⟩ := hahead.readReservedRaw hread
    rw [hstay] at hrun₂
    obtain rfl : data' = data := Except.ok.inj (hdata.symm.trans hd)
    obtain ⟨data₂, w₅, hput, hrun₃⟩ := of_bind_eq_ok hrun₂
    obtain ⟨hput, hstay₂⟩ := Format.of_lift_ok hput
    rw [hstay₂] at hrun₃
    have hid : be16 data' 0 = ABLKID := by
      unfold AnodeReader.anodeAt at hslot
      split at hslot
      · cases hslot
      · split at hslot
        · cases hslot
        · exact not_not.mp ‹_›
    have hslot' := of_putAnode hput hid hcs hbn hnx
    obtain ⟨k, hk, -⟩ := ht.inUse (.anode s) n hb hp
    have hlen := hahead.length hdata hw.sectors.le
    have hahead := hahead.writeReserved ⟨k, hk⟩ (hslot'.length.trans hlen) hrun₃
    obtain ⟨hplace, htable⟩ := ht.writeAnode hb hp (.ok data₂)
    obtain ⟨hreads, hother⟩ := @AnodeReader.anodeIn_put w.vol.anodes view
      (Function.update view n (.ok data₂)) s o n nr cs bn nx data' data₂ hb hso hslot'
      ((hplace (.anode s)).trans hp) (Function.update_self ..) (fun s' _ => hplace (.anode s'))
      (Or.inr ⟨hp, hd⟩) fun s' b' hne hb' hp' => by
        refine Function.update_of_ne (fun hcon => hne ?_) _ _
        have heq := ht.apart (.anode s') (.anode s) n hb (hcon ▸ hp') hp
        injection heq
    refine ⟨_, hahead, hreads, hother, fun b' hout => ⟨⟨hout.ne_zero, fun p => ?_, hout.used⟩, ?_⟩,
      htable⟩
    · rw [hplace]
      exact hout.place p
    · refine Function.update_of_ne (fun hcon => ?_) _ _
      rw [hcon] at hout
      exact hout.place (.anode s) hp

theorem onVol_onCache_eq {α : Type} (f : Volume → Device → CacheM α) (w : Writer) :
    Writer.onVol (do
      let v ← get
      Volume.onCache (f v)) w = Writer.onVol (Volume.onCache (f w.vol)) w := rfl

/-- The chain that the code follows: that of the volume as it was committed. -/
theorem Ahead.getChain (hw : w.Stable) (hx : w.Indexed) (h : Ahead w w₁ view free) {nr : ℕ}
    {chain : List Anode} (hrun : Writer.getChain nr w₁ = .ok chain w₂) :
    w.vol.anodes.IsChain w.blockOf chain nr ∧ chain.length ≤ MAX_CHAIN_LEN ∧
      Ahead w w₂ view free := by
  have hreads := @AnodeReader.getChainLoop_reads w.vol.anodes w.vol.dev w.Reserved hw.anodes
    (fun n hl hne => hx.reserved hne (AnodeReader.super_place hl n))
    (by
      rw [hw.anodesRbs, hw.readReserved_eq]
      exact fun i b hb hne => @Indexed.reserved w hx (.index i) b hne hb)
    (by
      rw [hw.anodesRbs, hw.readReserved_eq]
      exact fun s b hb hne => @Indexed.reserved w hx (.anode s) b hne hb) MAX_CHAIN_LEN [] nr
  rw [hw.anodesRbs, hw.readReserved_eq] at hreads
  unfold Writer.getChain Volume.getAnodeChain at hrun
  rw [onVol_onCache_eq fun v => v.anodes.getChain nr, h.anodes] at hrun
  unfold AnodeReader.getChain at hrun
  obtain ⟨hchain, hahead⟩ := h.reads hreads hrun
  obtain ⟨hchain, hlen⟩ := AnodeReader.of_chainIn _ hchain
  exact ⟨hchain, hlen, hahead⟩

/-- A chain with the new block behind its own. -/
structure Extended (w : Writer) (view view' : ℕ → Except Fault Bytes) (free free' : ℕ → Bool)
    (chain : List Anode) (head blk : ℕ) : Prop where
  chain : ∃ init tail nr, chain = init ++ [tail] ∧
    w.vol.anodes.IsChain view' (init ++ [{ tail with next := nr }, ⟨1, blk, ANODE_EOF, nr⟩]) head
  outside : ∀ b, w.Outside view free b → w.Outside view' free' b ∧ view' b = view b
  table : w.Table view' free'

theorem Ahead.extendAnodeChain (hw : w.Stable) (hx : w.Indexed) (hn : w.Numbered)
    (hcluster : 0 < w.vol.rootblock.rblkcluster) (h : Ahead w w₁ view free)
    (hsame : ∀ p b, b ≠ 0 → w.vol.anodes.placeIn w.blockOf p = .ok b → view b = w.blockOf b)
    (hless : ∀ k, free k = true → w.isFree k = true) {head blk : ℕ} {chain : List Anode}
    (hchain : w.vol.anodes.IsChain w.blockOf chain head)
    (hblocks : ∀ an ∈ chain, an.clustersize ≠ 0) (hblk : blk < U32)
    (hrun : Writer.extendAnodeChain head blk w₁ = .ok () w₂) :
    ∃ view' free', Ahead w w₂ view' free' ∧ w.Extended view view' free free' chain head blk := by
  have hpos : (1 : ℕ) < U32 ∧ (0 : ℕ) < U32 := by decide
  have hkept : ∀ nr an, w.vol.anodes.anodeIn w.blockOf nr = .ok an →
      w.vol.anodes.anodeIn view nr = .ok an := fun nr an => AnodeReader.anodeIn_of_same hsame
  have hplaces : ∀ p, w.vol.anodes.placeIn view p = w.vol.anodes.placeIn w.blockOf p :=
    AnodeReader.placeIn_congr fun p b hb _ => hsame p b hb
  unfold Writer.extendAnodeChain at hrun
  obtain ⟨nr, w₃, halloc, hrun₁⟩ := of_bind_eq_ok hrun
  obtain ⟨view₁, free₁, hahead, hnew⟩ :=
    newAnode_of_allocAnode hw hx hn hcluster hpos.1 hblk hpos.2 h hsame hless halloc
  unfold appendToAnodeChain at hrun₁
  obtain ⟨chain', w₄, hget, hrun₂⟩ := of_bind_eq_ok hrun₁
  obtain ⟨hchain', -, hahead⟩ := hahead.getChain hw hx hget
  obtain rfl := hchain.unique hchain'
  cases hlast : chain.getLast? with
  | none =>
      rw [hlast] at hrun₂
      cases hrun₂
  | some tail =>
      rw [hlast] at hrun₂
      dsimp only at hrun₂
      obtain ⟨init, hinit⟩ := List.getLast?_eq_some_iff.mp hlast
      have hne : ∀ an ∈ chain, an.nr ≠ nr := fun an han hcon =>
        hblocks an han (hnew.unused an (hcon ▸ hkept _ _ (hchain.anodeIn an han))).1
      have htail : tail ∈ chain := hinit ▸ List.mem_append_right init List.mem_cons_self
      have hold := hchain.anodeIn tail htail
      obtain ⟨hcs, hbn⟩ := AnodeReader.lt_of_anodeIn hold
      obtain ⟨view₂, hahead, hput⟩ := hahead.writeAnodeFields hw hx hn hnew.table hold
        (hnew.other _ _ (hne tail htail) (hkept _ _ hold))
        (fun s b hb hp => hnew.resolves s b hb ((hplaces (.anode s)).trans hp)) hcs hbn hnew.lt hrun₂
      refine ⟨view₂, free₁, hahead, ⟨init, tail, nr, hinit, ?_⟩, fun b hb => ?_, hput.table⟩
      · have hnodup := hchain.nodup
        rw [hinit, List.map_append, List.nodup_append] at hnodup
        refine AnodeReader.IsChain.append (hinit ▸ hchain) (fun an han => ?_) hput.reads
          ⟨hnew.ne_eof, hput.other _ _ (hne tail htail).symm hnew.reads, rfl⟩
        have hmem : an ∈ chain := hinit ▸ List.mem_append_left _ han
        refine hput.other _ _ (hnodup.2.2 an.nr (List.mem_map_of_mem han) tail.nr ?_) ?_
        · exact List.mem_map_of_mem List.mem_cons_self
        · exact hnew.other _ _ (hne an hmem) (hkept _ _ (hchain.anodeIn an hmem))
      · obtain ⟨hout, hfirst⟩ := hnew.outside b hb
        obtain ⟨hout, hsecond⟩ := hput.outside b hout
        exact ⟨hout, hsecond.trans hfirst⟩

end Extend

end Writer

end Pfs3
