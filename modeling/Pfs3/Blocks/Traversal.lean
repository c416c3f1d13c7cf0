import Pfs3.Blocks.Chains

/-!
# Following a chain

The anodes of a volume are a graph of next pointers with any content.  `get_chain` gives a chain
exactly if the pointers lead from the start to the end mark, over readable anodes that are all
different, within its limit.
-/

namespace Pfs3

open ByteList BlockCache Stop

namespace AnodeReader

/-- The next pointers lead from `start` to the end mark, over at most `n` anodes, all of them readable
and none of them twice. -/
def EndsWithin (r : AnodeReader) (view : ℕ → Except Fault Bytes) (n start : ℕ) : Prop :=
  ∃ k ≤ n, ∃ visit : ℕ → ℕ, visit 0 = start ∧ visit k = ANODE_EOF ∧
    (∀ i < k, visit i ≠ ANODE_EOF ∧
      ∃ an, r.anodeIn view (visit i) = .ok an ∧ an.next = visit (i + 1)) ∧
    ∀ i j, i < j → j < k → visit i ≠ visit j

/-- The anodes are linked from `start` to the end mark. -/
structure Linked (start : ℕ) (chain : List Anode) : Prop where
  nodup : (chain.map Anode.nr).Nodup
  empty : chain = [] ↔ start = ANODE_EOF
  first : ∀ an, chain.head? = some an → an.nr = start
  next : ∀ i an an', chain[i]? = some an → chain[i + 1]? = some an' → an.next = an'.nr
  last : ∀ an, chain.getLast? = some an → an.next = ANODE_EOF

variable {r : AnodeReader} {view : ℕ → Except Fault Bytes}

theorem IsChain.visit : ∀ {chain : List Anode} {start : ℕ}, r.IsChain view chain start →
    (chain.map Anode.nr).getD 0 ANODE_EOF = start ∧ ∀ i < chain.length,
      (chain.map Anode.nr).getD i ANODE_EOF ≠ ANODE_EOF ∧
      ∃ an, r.anodeIn view ((chain.map Anode.nr).getD i ANODE_EOF) = .ok an ∧
        an.next = (chain.map Anode.nr).getD (i + 1) ANODE_EOF
  | [], _, h => ⟨Eq.symm h, fun _ hi => absurd hi (Nat.not_lt_zero _)⟩
  | an :: rest, start, h => by
      obtain ⟨hne, hread, hrest⟩ := h
      obtain ⟨hfirst, hsteps⟩ := hrest.visit
      have hnr := nr_of_anodeIn hread
      refine ⟨hnr, fun i hi => ?_⟩
      cases i with
      | zero =>
          rw [List.map_cons, List.getD_cons_zero, hnr]
          exact ⟨hne, an, hread, hfirst.symm⟩
      | succ i => exact hsteps i (Nat.lt_of_succ_lt_succ hi)

theorem isChain_of_visit (k : ℕ) : ∀ {visit : ℕ → ℕ}, visit k = ANODE_EOF →
    (∀ i < k, visit i ≠ ANODE_EOF ∧
      ∃ an, r.anodeIn view (visit i) = .ok an ∧ an.next = visit (i + 1)) →
    ∃ chain, r.IsChain view chain (visit 0) ∧ chain.length = k := by
  induction k with
  | zero => exact fun hend _ => ⟨[], hend, rfl⟩
  | succ k ih =>
      intro visit hend hsteps
      obtain ⟨hne, an, hread, hnext⟩ := hsteps 0 (Nat.succ_pos k)
      obtain ⟨rest, hrest, hlen⟩ := @ih (fun i => visit (i + 1)) hend fun i hi =>
        hsteps (i + 1) (Nat.succ_lt_succ hi)
      exact ⟨an :: rest, ⟨hne, hread, hnext ▸ hrest⟩, congrArg Nat.succ hlen⟩

theorem endsWithin_iff {n start : ℕ} : r.EndsWithin view n start ↔
    ∃ chain, r.IsChain view chain start ∧ chain.length ≤ n := by
  constructor
  · rintro ⟨k, hle, visit, rfl, hend, hsteps, -⟩
    obtain ⟨chain, hchain, hlen⟩ := isChain_of_visit k hend hsteps
    exact ⟨chain, hchain, hlen ▸ hle⟩
  · rintro ⟨chain, hchain, hle⟩
    obtain ⟨hfirst, hsteps⟩ := hchain.visit
    refine ⟨chain.length, hle, fun i => (chain.map Anode.nr).getD i ANODE_EOF, hfirst, ?_, hsteps,
      fun i j hij hj hcon => ?_⟩
    · exact List.getD_eq_default _ _ (List.length_map ..).le
    · have hlen : (chain.map Anode.nr).length = chain.length := List.length_map ..
      have hi : i < (chain.map Anode.nr).length := by omega
      have hj : j < (chain.map Anode.nr).length := by omega
      dsimp only at hcon
      rw [List.getD_eq_getElem _ _ hi, List.getD_eq_getElem _ _ hj] at hcon
      have heq := (List.Nodup.getElem_inj_iff hchain.nodup).mp hcon
      omega

theorem IsChain.linked : ∀ {chain : List Anode} {start : ℕ}, r.IsChain view chain start →
    Linked start chain
  | [], start, h =>
      ⟨List.nodup_nil, ⟨fun _ => h, fun _ => rfl⟩, fun _ han => (nomatch han),
        fun _ _ _ han => (nomatch han), fun _ han => (nomatch han)⟩
  | an :: rest, start, h => by
      have hnr := nr_of_anodeIn h.2.1
      have hrest := h.2.2.linked
      refine ⟨h.nodup, ⟨fun hcon => (nomatch hcon), fun hcon => absurd hcon h.1⟩, fun x hx => ?_,
        fun i x y hx hy => ?_, fun x hx => ?_⟩
      · cases hx
        exact hnr
      · cases i with
        | zero =>
            cases hx
            refine (hrest.first y ?_).symm
            rw [List.head?_eq_getElem?]
            exact hy
        | succ i => exact hrest.next i x y hx hy
      · cases rest with
        | nil =>
            cases hx
            exact h.2.2
        | cons b rest =>
            rw [List.getLast?_cons_cons] at hx
            exact hrest.last x hx

end AnodeReader

namespace Volume

/-- A call of `get_chain` reads the anodes that the device holds. -/
theorem getAnodeChain_eq {v v' : Volume} (hv : v.Opened) (hlike : v.Like v') (start : ℕ) :
    ∃ s, getAnodeChain start v' =
      match v.anodes.chainIn (v.dev.readReserved v.rootblock.reservedBlksize) MAX_CHAIN_LEN []
        start with
      | .ok chain => .ok chain s
      | .error f => .error f s := by
  obtain ⟨c, rfl, hc⟩ := hlike
  have hreads := @AnodeReader.getChainLoop_reads v.anodes v.dev (fun _ => True) hv.anodes
    (fun _ _ _ => trivial) (fun _ _ _ _ => trivial) (fun _ _ _ _ => trivial) MAX_CHAIN_LEN [] start
  rw [hv.anodesRbs] at hreads
  change ∃ s, zoom Volume.cache (fun c v => { v with cache := c })
    (v.anodes.getChainLoop v.dev MAX_CHAIN_LEN [] start) { v with cache := c } = _
  unfold zoom
  cases hcase : v.anodes.chainIn (v.dev.readReserved v.rootblock.reservedBlksize) MAX_CHAIN_LEN []
      start with
  | error f =>
      rw [hcase] at hreads
      obtain ⟨c', hrun, -⟩ := hreads.raise hc.shows
      dsimp only
      rw [hrun]
      exact ⟨_, rfl⟩
  | ok chain =>
      rw [hcase] at hreads
      obtain ⟨_, c', hrun, rfl, -⟩ := hreads.ok hc.shows
      dsimp only
      rw [hrun]
      exact ⟨_, rfl⟩

/-- On a volume with any content, with the cache in any state that shows the device: `get_chain` ends
without a panic, it gives a chain exactly if the next pointers end, and the chain is the list of the
anodes that they lead over. -/
theorem getAnodeChain_exact {dev : Device} {v v' : Volume} (hopen : fromDevice dev = .ok v)
    (hlike : v.Like v') (start : ℕ) :
    ((∃ chain s, getAnodeChain start v' = .ok chain s) ∨
      ∃ e s, getAnodeChain start v' = .error (.err e) s) ∧
    ((∃ chain s, getAnodeChain start v' = .ok chain s) ↔
      v.anodes.EndsWithin (v.dev.readReserved v.rootblock.reservedBlksize) MAX_CHAIN_LEN start) ∧
    ∀ chain s, getAnodeChain start v' = .ok chain s → AnodeReader.Linked start chain ∧
      ∀ an ∈ chain,
        v.anodes.anodeIn (v.dev.readReserved v.rootblock.reservedBlksize) an.nr = .ok an := by
  have hv := opened_of_fromDevice hopen
  obtain ⟨s, hrun⟩ := getAnodeChain_eq hv hlike start
  have hlinked : ∀ chain s, getAnodeChain start v' = .ok chain s →
      v.anodes.IsChain (v.dev.readReserved v.rootblock.reservedBlksize) chain start ∧
        chain.length ≤ MAX_CHAIN_LEN := by
    intro chain s' hok
    rw [hrun] at hok
    split at hok
    · rename_i chain' hcase
      cases hok
      exact AnodeReader.of_chainIn _ hcase
    · cases hok
  refine ⟨?_, ⟨?_, fun hends => ?_⟩, fun chain s' hok => ?_⟩
  · obtain ⟨answer, hsteady⟩ := hv.steady_getAnodeChain start
    cases answer with
    | ok chain =>
        obtain ⟨chain', s', hok, -⟩ := hsteady.ok hlike
        exact Or.inl ⟨chain', s', hok⟩
    | error e =>
        obtain ⟨s', herr, -⟩ := hsteady.raise hlike
        exact Or.inr ⟨e, s', herr⟩
  · rintro ⟨chain, s', hok⟩
    exact AnodeReader.endsWithin_iff.mpr ⟨chain, hlinked chain s' hok⟩
  · obtain ⟨chain, hchain, hlen⟩ := AnodeReader.endsWithin_iff.mp hends
    rw [hrun, hchain.chainIn _ fun _ _ => List.not_mem_nil, if_pos hlen]
    exact ⟨chain, s, rfl⟩
  · obtain ⟨hchain, -⟩ := hlinked chain s' hok
    exact ⟨hchain.linked, hchain.anodeIn⟩

/-- The chain of the root directory. -/
theorem getAnodeChain_exact_root :
    (∃ chain s, getAnodeChain ANODE_ROOTDIR (handLaidVolume rootSlots []) = .ok chain s) ∧
    (handLaidVolume rootSlots []).anodes.EndsWithin
      ((handLaidVolume rootSlots []).dev.readReserved
        (handLaidVolume rootSlots []).rootblock.reservedBlksize) MAX_CHAIN_LEN ANODE_ROOTDIR := by
  have hopen := fromDevice_handLaid rootSlots []
  obtain ⟨-, hiff, -⟩ :=
    getAnodeChain_exact hopen (opened_of_fromDevice hopen).like ANODE_ROOTDIR
  have hcheck : (match getAnodeChain ANODE_ROOTDIR (handLaidVolume rootSlots []) with
      | .ok _ _ => true
      | .error _ _ => false) = true := by decide +kernel
  have hok : ∃ chain s, getAnodeChain ANODE_ROOTDIR (handLaidVolume rootSlots []) = .ok chain s := by
    split at hcheck
    · rename_i chain s hget
      exact ⟨chain, s, hget⟩
    · cases hcheck
  exact ⟨hok, hiff.mp hok⟩

end Volume

end Pfs3
