import Pfs3.Dirs.Ordered

/-!
# The chain of a new file

`create_anode_chain` allocates one anode for each run of blocks, from the last run to the first.
The committed index decides where it looks for free slots, so a second new anode block takes the
place of the first one.  The module says when the chain holds exactly the blocks after the commit.
-/

namespace Pfs3

open ByteList BlockCache Stop

/-- One element of the list is not counted any more. -/
theorem countP_flip {α : Type} {l : List α} (hnodup : l.Nodup) {a : α} (ha : a ∈ l) {p q : α → Bool}
    (hp : p a = true) (hq : q a = false) (hsame : ∀ x ∈ l, x ≠ a → q x = p x) :
    l.countP q + 1 = l.countP p := by
  induction l with
  | nil => cases ha
  | cons x l ih =>
      obtain ⟨hx, hnodup⟩ := List.nodup_cons.mp hnodup
      rcases List.mem_cons.mp ha with rfl | ha
      · have hrest : l.countP q = l.countP p := List.countP_congr fun y hy => by
          rw [hsame y (List.mem_cons_of_mem _ hy) fun hcon => hx (hcon ▸ hy)]
        rw [List.countP_cons_of_pos hp, List.countP_cons_of_neg (by rw [hq]; decide), hrest]
      · have hne : x ≠ a := fun hcon => hx (hcon ▸ ha)
        have hrest := ih hnodup ha fun y hy => hsame y (List.mem_cons_of_mem _ hy)
        rw [List.countP_cons, List.countP_cons, hsame x List.mem_cons_self hne]
        omega

namespace AnodeReader

variable {r : AnodeReader} {view view' : ℕ → Except Fault Bytes}

theorem anodeIn_congr {nr : ℕ}
    (hres : r.resolveIn view' (r.splitNr nr).1 = r.resolveIn view (r.splitNr nr).1)
    (hblock : ∀ b, b ≠ 0 → r.resolveIn view (r.splitNr nr).1 = .ok b → view' b = view b) :
    r.anodeIn view' nr = r.anodeIn view nr := by
  rw [anodeIn, anodeIn, hres]
  cases hcase : r.resolveIn view (r.splitNr nr).1 with
  | error f => rfl
  | ok b =>
      dsimp only
      by_cases hb : b = 0
      · rw [if_pos hb, if_pos hb]
      · rw [if_neg hb, if_neg hb, hblock b hb hcase]

end AnodeReader

namespace Writer

/-- All of these slots. -/
def slots (w : Writer) : List (ℕ × ℕ) := w.slotsOf (List.range 256)

/-- How many anodes find a slot in the anode blocks before the first that is missing. -/
def freeSlots (w : Writer) : ℕ := w.slots.countP (w.isFreeSlot w.blockOf)

section Slots

variable {w w₁ w₂ : Writer} {view view' : ℕ → Except Fault Bytes} {free free' : ℕ → Bool}

theorem nodup_slots (w : Writer) : w.slots.Nodup :=
  (List.nodup_range.sublist (List.takeWhile_sublist _)).product List.nodup_range

theorem ne_firstMissing {p : ℕ × ℕ} (hp : p ∈ w.slots) : w.firstMissing ≠ some p.1 := by
  intro hcon
  have hlacks := List.find?_some hcon
  have hhas := List.mem_takeWhile_imp (mem_slotsOf.mp hp).1
  rw [hlacks] at hhas
  cases hhas

theorem splitNr_slot (hn : w.Numbered) {p : ℕ × ℕ} (hp : p ∈ w.slots) :
    w.vol.anodes.splitNr (w.anodeNr p.1 p.2) = p :=
  splitNr_anodeNr hn.split hn.anodesPerBlock (by have hsmall := hn.small; omega)
    (mem_slotsOf.mp hp).2

/-- A slot that is taken leaves every other one as it was. -/
theorem InSlot.slots (hn : w.Numbered) (hadding : w.Adding view free) {s o cs bn nx : ℕ}
    (hmem : (s, o) ∈ w.slots) (hcs : cs ≠ 0) (h : w.InSlot view view' s o cs bn nx) :
    w.Adding view' free ∧
      (∀ s', w.vol.anodes.resolveIn view' s' = w.vol.anodes.resolveIn view s') ∧
      w.slots.countP (w.isFreeSlot view') + 1 = w.slots.countP (w.isFreeSlot view) := by
  obtain ⟨blk, data, data', hblk, hres, hdata, hput, rfl⟩ := h.put
  have hsplit := splitNr_slot hn hmem
  obtain ⟨hplace, htable⟩ := hadding.table.writeAnode hblk hres (.ok data')
  refine ⟨⟨htable, hadding.less, fun i hi => (hplace (.index i)).trans (hadding.index i hi),
      fun s' hs' => (hplace (.anode s')).trans (hadding.elsewhere s' hs')⟩,
    fun s' => hplace (.anode s'), countP_flip w.nodup_slots hmem h.free ?_ fun p hp hne => ?_⟩
  · unfold isFreeSlot
    rw [AnodeReader.anodeIn_of_block hblk (by rw [hsplit]; exact (hplace (.anode s)).trans hres)
      (Function.update_self ..), hsplit, hput.slot]
    exact decide_eq_false fun hcon => hcs hcon.2.1
  · have hsplit' := splitNr_slot hn hp
    unfold isFreeSlot
    by_cases hs : p.1 = s
    · -- another slot of the same block
      have hoff : p.2 ≠ o := fun hcon => hne (Prod.ext hs hcon)
      rw [AnodeReader.anodeIn_of_block hblk
          (by rw [hsplit', hs]; exact (hplace (.anode s)).trans hres) (Function.update_self ..),
        AnodeReader.anodeIn_of_block hblk (by rw [hsplit', hs]; exact hres) hdata, hsplit',
        hput.other _ _ hoff]
    · have heq := @AnodeReader.anodeIn_congr w.vol.anodes view
        (Function.update view blk (.ok data')) (w.anodeNr p.1 p.2)
        (by rw [hsplit']; exact hplace (.anode p.1)) fun b hb hp' => by
          rw [hsplit'] at hp'
          refine Function.update_of_ne (fun hcon => ?_) _ _
          have hsame := hadding.table.apart (.anode p.1) (.anode s) b hb hp' (hcon ▸ hres)
          injection hsame with hsame
          exact hs hsame
      rw [heq]

/-- A new anode block leaves the slots of the other blocks as they were. -/
theorem InNewBlock.slots (hn : w.Numbered) {s cs bn nx : ℕ}
    (h : w.InNewBlock view view' free free' s cs bn nx) :
    w.Adding view' free' ∧ (∀ p ∈ w.slots, w.isFreeSlot view' p = w.isFreeSlot view p) ∧
      w.vol.anodes.anodeIn view' (w.anodeNr s ANODE_USERFIRST) =
        .ok ⟨cs, bn, nx, w.anodeNr s ANODE_USERFIRST⟩ := by
  obtain ⟨view₁, blk, fresh, data', hnew, hadding, hput, rfl⟩ := h.put
  obtain ⟨hplace, htable⟩ := hadding.table.writeAnode hnew.ne_zero hnew.there (.ok data')
  have hsplit := splitNr_anodeNr hn.split hn.anodesPerBlock (by have hsmall := hn.small; omega)
    (s := s) hn.first
  refine ⟨⟨htable, hadding.less, fun i hi => (hplace (.index i)).trans (hadding.index i hi),
      fun s' hs' => (hplace (.anode s')).trans (hadding.elsewhere s' hs')⟩, fun p hp => ?_, ?_⟩
  · have hsplit' := splitNr_slot hn hp
    have hs : p.1 ≠ s := fun hcon => ne_firstMissing hp (hcon ▸ h.missing)
    unfold isFreeSlot
    have heq := @AnodeReader.anodeIn_congr w.vol.anodes view
      (Function.update view₁ blk (.ok data')) (w.anodeNr p.1 p.2)
      (by rw [hsplit']; exact (hplace (.anode p.1)).trans (hnew.elsewhere _ hs)) fun b hb hp' => by
        rw [hsplit'] at hp'
        rw [Function.update_of_ne (fun hcon => ?_), hnew.anodes p.1 b hb hp']
        have hsame := hadding.table.apart (.anode p.1) (.anode s) b hb
          ((hnew.elsewhere _ hs).trans hp') (hcon ▸ hnew.there)
        injection hsame with hsame
        exact hs hsame
    rw [heq]
  · rw [AnodeReader.anodeIn_of_block hnew.ne_zero
      (by rw [hsplit]; exact (hplace (.anode s)).trans hnew.there) (Function.update_self ..), hsplit]
    exact hput.slot _

end Slots

/-! ## The anodes of the runs -/

/-- The anodes of these runs of blocks, linked in order; no other anode has changed. -/
structure Laid (w : Writer) (view : ℕ → Except Fault Bytes) (runs : List (ℕ × ℕ))
    (chain : List Anode) (head : ℕ) : Prop where
  linked : w.vol.anodes.IsChain view chain head
  blocks : chain.map (fun an => (an.blocknr, an.clustersize)) = runs
  lt : head < U32
  unused : ∀ an ∈ chain, ∀ an₀, w.vol.anodes.anodeIn w.blockOf an.nr = .ok an₀ →
    an₀.clustersize = 0 ∧ an₀.blocknr = 0
  other : ∀ nr an, nr ∉ chain.map Anode.nr → w.vol.anodes.anodeIn w.blockOf nr = .ok an →
    w.vol.anodes.anodeIn view nr = .ok an

/-- Runs of blocks as `create_anode_chain` makes them. -/
def GoodRuns (runs : List (ℕ × ℕ)) : Prop :=
  ∀ run ∈ runs, run.2 ≠ 0 ∧ run.1 < U32 ∧ run.2 < U32

section Runs

variable {w w₁ w₂ : Writer} {view view' : ℕ → Except Fault Bytes} {free free' : ℕ → Bool}
  {runs : List (ℕ × ℕ)} {chain : List Anode} {head : ℕ}

theorem Laid.nil (w : Writer) : w.Laid w.blockOf [] [] ANODE_EOF where
  linked := rfl
  blocks := rfl
  lt := by decide
  unused _ han := absurd han List.not_mem_nil
  other _ _ _ h := h

/-- One more anode in front. -/
theorem Laid.cons (h : w.Laid view runs chain head) (hgood : GoodRuns runs) {nr cs bn : ℕ}
    (hnew : w.NewAnode view view' free free' nr cs bn head) :
    w.Laid view' ((bn, cs) :: runs) (⟨cs, bn, head, nr⟩ :: chain) nr := by
  have hread := h.linked.anodeIn
  have hfresh : nr ∉ chain.map Anode.nr := by
    intro hmem
    obtain ⟨an, han, rfl⟩ := List.mem_map.mp hmem
    have hrun : (an.blocknr, an.clustersize) ∈ runs := h.blocks ▸ List.mem_map_of_mem han
    exact (hgood _ hrun).1 (hnew.unused an (hread an han)).1
  have hne : ∀ an ∈ chain, an.nr ≠ nr := fun an han hcon =>
    hfresh (hcon ▸ List.mem_map_of_mem han)
  refine ⟨⟨hnew.ne_eof, hnew.reads, h.linked.congr fun an han =>
    hnew.other _ _ (hne an han) (hread an han)⟩, ?_, hnew.lt, fun an han an₀ hold => ?_,
    fun nr' an hmem hold => ?_⟩
  · rw [List.map_cons, h.blocks]
  · rcases List.mem_cons.mp han with rfl | han
    · exact hnew.unused an₀ (h.other nr an₀ hfresh hold)
    · exact h.unused an han an₀ hold
  · rw [List.map_cons, List.mem_cons, not_or] at hmem
    exact hnew.other _ _ hmem.1 (h.other nr' an hmem.2 hold)

/-- As long as the free slots last, the index stays as it is. -/
theorem of_createAnodes (hw : w.Consistent) (runs : List (ℕ × ℕ)) : ∀ {w₁ : Writer} {head : ℕ},
    GoodRuns runs → runs.length ≤ w.freeSlots → createAnodes runs w = .ok head w₁ →
    ∃ view free chain, Ahead w w₁ view free ∧ w.Adding view free ∧
      (∀ s, w.vol.anodes.resolveIn view s = w.vol.anodes.resolveIn w.blockOf s) ∧
      w.slots.countP (w.isFreeSlot view) + runs.length = w.freeSlots ∧
      w.Laid view runs chain head := by
  induction runs with
  | nil =>
      intro w₁ head _ _ hrun
      cases hrun
      exact ⟨w.blockOf, w.isFree, [], hw.stable.ahead,
        (hw.indexed.adding (fun _ _ _ _ => rfl) fun _ hk => hk).1, fun _ => rfl, rfl, Laid.nil w⟩
  | cons run runs ih =>
      intro w₁ nr hgood hroom hrun
      obtain ⟨bn, cs⟩ := run
      obtain ⟨hcs0, hbn, hcs⟩ := hgood _ List.mem_cons_self
      have hgood' : GoodRuns runs := fun x hx => hgood x (List.mem_cons_of_mem _ hx)
      rw [List.length_cons] at hroom
      rw [createAnodes] at hrun
      obtain ⟨head, w₃, hrest, halloc⟩ := of_bind_eq_ok hrun
      obtain ⟨view, free, chain, hahead, hadding, hres, hcount, hlaid⟩ :=
        ih hgood' (by omega) hrest
      obtain ⟨s, o, view', free', rfl, hs, ho, hfirst, hahead', hcase⟩ :=
        of_allocAnodeLoop hw.stable hw.indexed hw.numbered hw.cluster hadding hcs hbn hlaid.lt _
          (fun _ hs => List.mem_range.mp hs) rfl hahead halloc
      rcases hcase with ⟨hmem, rfl, hslot⟩ | ⟨-, hfull, -⟩
      · obtain ⟨hadding', hres', hcount'⟩ := hslot.slots hw.numbered hadding hmem hcs0
        refine ⟨view', _, _, hahead', hadding', fun s' => (hres' s').trans (hres s'), ?_,
          hlaid.cons hgood' (hslot.newAnode hw.numbered hadding hs ho hfirst)⟩
        rw [List.length_cons]
        omega
      · -- the count says that a slot is left
        have hzero : w.slots.countP (w.isFreeSlot view) = 0 :=
          List.countP_eq_zero.mpr fun p hp => by
            rw [hfull p hp]
            exact Bool.false_ne_true
        omega

/-- One anode more than there are free slots goes into a new block. -/
theorem laid_of_createAnodes (hw : w.Consistent) {run : ℕ × ℕ} (hgood : GoodRuns (run :: runs))
    (hroom : runs.length ≤ w.freeSlots) (hrun : createAnodes (run :: runs) w = .ok head w₁) :
    ∃ view free chain, Ahead w w₁ view free ∧ w.Table view free ∧
      w.Laid view (run :: runs) chain head := by
  obtain ⟨bn, cs⟩ := run
  obtain ⟨hcs0, hbn, hcs⟩ := hgood _ List.mem_cons_self
  have hgood' : GoodRuns runs := fun x hx => hgood x (List.mem_cons_of_mem _ hx)
  rw [createAnodes] at hrun
  obtain ⟨next, w₃, hrest, halloc⟩ := of_bind_eq_ok hrun
  obtain ⟨view, free, chain, hahead, hadding, hres, hcount, hlaid⟩ :=
    of_createAnodes hw runs hgood' hroom hrest
  obtain ⟨s, o, view', free', rfl, hs, ho, hfirst, hahead', hcase⟩ :=
    of_allocAnodeLoop hw.stable hw.indexed hw.numbered hw.cluster hadding hcs hbn hlaid.lt _
      (fun _ hs => List.mem_range.mp hs) rfl hahead halloc
  rcases hcase with ⟨hmem, rfl, hslot⟩ | ⟨rfl, -, hblock⟩
  · exact ⟨view', _, _, hahead', (hslot.slots hw.numbered hadding hmem hcs0).1.table,
      hlaid.cons hgood' (hslot.newAnode hw.numbered hadding hs ho hfirst)⟩
  · refine ⟨view', free', _, hahead', (hblock.slots hw.numbered).1.table,
      hlaid.cons hgood' (hblock.newAnode hw.numbered hs ?_)⟩
    exact (hres s).trans (resolveIn_of_firstMissing hblock.missing)

/-- From the second new block on, the anode that was made last is its own successor. -/
theorem loop_of_createAnodes (hw : w.Consistent) (runs : List (ℕ × ℕ)) :
    ∀ {w₁ : Writer} {head : ℕ}, GoodRuns runs → w.freeSlots < runs.length →
    createAnodes runs w = .ok head w₁ → ∃ s view free, Ahead w w₁ view free ∧
      w.Adding view free ∧ w.firstMissing = some s ∧ s < 256 ∧
      head = w.anodeNr s ANODE_USERFIRST ∧ (∀ p ∈ w.slots, w.isFreeSlot view p = false) ∧
      (w.freeSlots + 1 < runs.length →
        ∃ an, w.vol.anodes.anodeIn view head = .ok an ∧ an.next = head) := by
  induction runs with
  | nil =>
      intro w₁ head _ hlt
      cases hlt
  | cons run runs ih =>
      intro w₁ nr hgood hlt hrun
      obtain ⟨bn, cs⟩ := run
      obtain ⟨hcs0, hbn, hcs⟩ := hgood _ List.mem_cons_self
      have hgood' : GoodRuns runs := fun x hx => hgood x (List.mem_cons_of_mem _ hx)
      rw [List.length_cons] at hlt
      rw [createAnodes] at hrun
      obtain ⟨next, w₃, hrest, halloc⟩ := of_bind_eq_ok hrun
      have hbefore : ∃ view free, Ahead w w₃ view free ∧ w.Adding view free ∧ next < U32 ∧
          (∀ p ∈ w.slots, w.isFreeSlot view p = false) ∧ (w.freeSlots < runs.length →
            ∃ s, w.firstMissing = some s ∧ next = w.anodeNr s ANODE_USERFIRST) := by
        by_cases hle : runs.length ≤ w.freeSlots
        · obtain ⟨view, free, chain, hahead, hadding, -, hcount, hlaid⟩ :=
            of_createAnodes hw runs hgood' hle hrest
          have hzero : w.slots.countP (w.isFreeSlot view) = 0 := by omega
          refine ⟨view, free, hahead, hadding, hlaid.lt, fun p hp => ?_, fun hcon => by omega⟩
          exact Bool.eq_false_of_not_eq_true (List.countP_eq_zero.mp hzero p hp)
        · obtain ⟨s, view, free, hahead, hadding, hmissing, hs, hnext, hfull, -⟩ :=
            ih hgood' (by omega) hrest
          exact ⟨view, free, hahead, hadding, hnext ▸ hw.numbered.anodeNr_lt hs hw.numbered.first,
            hfull, fun _ => ⟨s, hmissing, hnext⟩⟩
      obtain ⟨view, free, hahead, hadding, hnext, hfull, hagain⟩ := hbefore
      obtain ⟨s, o, view', free', rfl, hs, -, -, hahead', hcase⟩ :=
        of_allocAnodeLoop hw.stable hw.indexed hw.numbered hw.cluster hadding hcs hbn hnext _
          (fun _ hs => List.mem_range.mp hs) rfl hahead halloc
      rcases hcase with ⟨hmem, -, hslot⟩ | ⟨rfl, -, hblock⟩
      · have hfree := hslot.free
        rw [hfull _ hmem] at hfree
        cases hfree
      · obtain ⟨hadding', hsame, hreads⟩ := hblock.slots hw.numbered
        refine ⟨s, view', free', hahead', hadding', hblock.missing, hs, rfl,
          fun p hp => (hsame p hp).trans (hfull p hp), fun hmore => ⟨_, hreads, ?_⟩⟩
        rw [List.length_cons] at hmore
        obtain ⟨s', hmissing, hloop⟩ := hagain (by omega)
        cases hblock.missing.symm.trans hmissing
        exact hloop

end Runs

/-! ## After the commit -/

/-- `get_chain`, without the state of the cache. -/
def chainOf (w : Writer) (anodenr : ℕ) : Except Fault (List Anode) :=
  outcome (w.vol.anodes.getChain anodenr w.vol.dev w.vol.cache)

/-- The chain from `head` on has exactly these blocks, in anodes that were free before, and every
other anode is as it was. -/
def StoresChain (w w' : Writer) (blocks : List ℕ) (head : ℕ) : Prop :=
  ∃ chain, w'.chainOf head = .ok chain ∧ AnodeReader.chainBlocks chain = blocks ∧
    (chain.map Anode.nr).Nodup ∧
    (∀ an ∈ chain, ∀ an₀, w.anodeOf an.nr = .ok an₀ → an₀.clustersize = 0 ∧ an₀.blocknr = 0) ∧
    ∀ nr an, nr ∉ chain.map Anode.nr → w.anodeOf nr = .ok an → w'.anodeOf nr = .ok an

section Committed

variable {w w₁ w₂ : Writer} {view : ℕ → Except Fault Bytes} {free : ℕ → Bool}

theorem Consistent.chainOf_eq (hw : w.Consistent) (nr : ℕ) :
    w.chainOf nr = w.vol.anodes.chainIn w.blockOf MAX_CHAIN_LEN [] nr := by
  have hx := hw.indexed
  have hreads := @AnodeReader.getChainLoop_reads w.vol.anodes w.vol.dev w.Reserved
    hw.stable.anodes (fun n hl hne => hx.reserved hne (AnodeReader.super_place hl n))
    (by
      rw [hw.stable.anodesRbs, hw.stable.readReserved_eq]
      exact fun i b hb hne => @Indexed.reserved w hx (.index i) b hne hb)
    (by
      rw [hw.stable.anodesRbs, hw.stable.readReserved_eq]
      exact fun s b hb hne => @Indexed.reserved w hx (.anode s) b hne hb) MAX_CHAIN_LEN [] nr
  rw [hw.stable.anodesRbs, hw.stable.readReserved_eq] at hreads
  exact outcome_of_reads hreads hw.stable.cache

/-- The commit keeps the anodes. -/
theorem Consistent.anodes_commit (hw : w.Consistent) (h : Ahead w w₁ view free)
    (ht : w.Table view free) (hcommit : updateRootblock w₁ = .ok () w₂) :
    w₂.Consistent ∧ w₂.vol.anodes = w.vol.anodes ∧ ∀ nr an,
      w.vol.anodes.anodeIn view nr = .ok an → w.vol.anodes.anodeIn w₂.blockOf nr = .ok an := by
  obtain ⟨hc, hblocks, -, hw₂⟩ := hw.commit h ht hcommit
  exact ⟨hw₂, hc.anodes, fun nr an => AnodeReader.anodeIn_of_same fun p b hb hp =>
    hblocks b (ht.reserved hb hp)⟩

theorem goodRuns_clusters {blocks : List ℕ} (hrange : ∀ b ∈ blocks, 0 < b ∧ b < U32) :
    GoodRuns (clusters blocks) := by
  intro run hrun
  obtain ⟨hpos, -, hstart⟩ := clusters_spec blocks run hrun
  have hlast : run.1 + (run.2 - 1) ∈ blocks := by
    rw [← clusters_blocks blocks]
    refine List.mem_flatMap.mpr ⟨run, hrun, List.mem_range'_1.mpr ⟨by omega, by omega⟩⟩
  have hlt := (hrange _ hlast).2
  have hstart := hrange _ hstart
  exact ⟨by omega, hstart.2, by omega⟩

theorem chainBlocks_of_clusters {chain : List Anode} {blocks : List ℕ}
    (h : chain.map (fun an => (an.blocknr, an.clustersize)) = clusters blocks) :
    AnodeReader.chainBlocks chain = blocks := by
  rw [← clusters_blocks blocks, ← h, List.flatMap_map]
  rfl

/-- The chain of a new file has exactly its blocks if and only if at most one of its anodes goes
into a new anode block, and it is not too long to be read. -/
theorem createAnodeChain_stores_iff (hw : w.Consistent) {blocks : List ℕ} {head : ℕ}
    (hne : blocks ≠ []) (hrange : ∀ b ∈ blocks, 0 < b ∧ b < U32)
    (hrun : createAnodeChain blocks w = .ok head w₁) (hcommit : updateRootblock w₁ = .ok () w₂) :
    StoresChain w w₂ blocks head ↔
      (clusters blocks).length ≤ w.freeSlots + 1 ∧ (clusters blocks).length ≤ MAX_CHAIN_LEN := by
  have hgood := goodRuns_clusters hrange
  unfold createAnodeChain at hrun
  -- with room for all anodes but one, the chain is linked
  have hlinked : (clusters blocks).length ≤ w.freeSlots + 1 → ∃ chain, w₂.Consistent ∧
      w₂.vol.anodes = w.vol.anodes ∧ w.vol.anodes.IsChain w₂.blockOf chain head ∧
      chain.length = (clusters blocks).length ∧ AnodeReader.chainBlocks chain = blocks ∧
      (∀ an ∈ chain, ∀ an₀, w.vol.anodes.anodeIn w.blockOf an.nr = .ok an₀ →
        an₀.clustersize = 0 ∧ an₀.blocknr = 0) ∧
      ∀ nr an, nr ∉ chain.map Anode.nr → w.vol.anodes.anodeIn w.blockOf nr = .ok an →
        w.vol.anodes.anodeIn w₂.blockOf nr = .ok an := by
    intro hroom
    have hruns := clusters_ne_nil hne
    cases hc : clusters blocks with
    | nil => exact absurd hc hruns
    | cons run runs =>
        rw [hc] at hgood hrun hroom
        rw [List.length_cons, Nat.add_le_add_iff_right] at hroom
        obtain ⟨view, free, chain, hahead, ht, hlaid⟩ := laid_of_createAnodes hw hgood hroom hrun
        obtain ⟨hw₂, hanodes, hkeep⟩ := hw.anodes_commit hahead ht hcommit
        refine ⟨chain, hw₂, hanodes, hlaid.linked.congr fun an han =>
            hkeep _ _ (hlaid.linked.anodeIn an han), ?_,
          chainBlocks_of_clusters (hlaid.blocks.trans hc.symm), hlaid.unused,
          fun nr an hmem hold => hkeep _ _ (hlaid.other nr an hmem hold)⟩
        rw [← hlaid.blocks, List.length_map]
  constructor
  · rintro ⟨chain, hchain, hblocks, -⟩
    have hroom : (clusters blocks).length ≤ w.freeSlots + 1 := by
      by_contra hmore
      obtain ⟨s, view, free, hahead, hadding, -, -, -, -, hloop⟩ :=
        loop_of_createAnodes hw _ hgood (by omega) hrun
      obtain ⟨an, han, hnext⟩ := hloop (by omega)
      obtain ⟨hw₂, hanodes, hkeep⟩ := hw.anodes_commit hahead hadding.table hcommit
      rw [hw₂.chainOf_eq, hanodes] at hchain
      obtain ⟨hchain, -⟩ := AnodeReader.of_chainIn _ hchain
      cases chain with
      | nil => exact hne hblocks.symm
      | cons an' rest =>
          -- the rest of the chain would be the whole chain again
          obtain rfl := Except.ok.inj ((hkeep _ _ han).symm.trans hchain.2.1)
          have hrest := hchain.2.2
          rw [hnext] at hrest
          have hlen := congrArg List.length (hchain.unique hrest)
          simp only [List.length_cons] at hlen
          omega
    obtain ⟨chain', hw₂, hanodes, hlinked, hlen, -⟩ := hlinked hroom
    rw [hw₂.chainOf_eq, hanodes] at hchain
    obtain ⟨hchain, hmax⟩ := AnodeReader.of_chainIn _ hchain
    rw [hlinked.unique hchain] at hlen
    exact ⟨hroom, hlen ▸ hmax⟩
  · rintro ⟨hroom, hmax⟩
    obtain ⟨chain, hw₂, hanodes, hlinked, hlen, hblocks, hunused, hother⟩ := hlinked hroom
    refine ⟨chain, ?_, hblocks, hlinked.nodup, fun an han an₀ hold => ?_,
      fun nr an hmem hold => ?_⟩
    · rw [hw₂.chainOf_eq, hanodes, hlinked.chainIn _ fun _ _ => List.not_mem_nil,
        if_pos (hlen ▸ hmax)]
    · rw [hw.stable.anodeOf_eq hw.indexed] at hold
      exact hunused an han an₀ hold
    · rw [hw.stable.anodeOf_eq hw.indexed] at hold
      rw [hw₂.stable.anodeOf_eq hw₂.indexed, hanodes]
      exact hother nr an hmem hold

end Committed

/-- Three blocks for a new file, in two runs, on the volume with one anode block. -/
def storeThree : Option (Writer × ℕ × Writer × Writer) :=
  match Writer.open (oneAnodeBlockVolume 512) fun _ => ⟨0, 0, 0⟩ with
  | .error _ => none
  | .ok w =>
      match createAnodeChain [12, 13, 15] w with
      | .error _ _ => none
      | .ok head w₁ =>
          match updateRootblock w₁ with
          | .error _ _ => none
          | .ok () w₂ => some (w, head, w₁, w₂)

theorem of_storeThree {w w₁ w₂ : Writer} {head : ℕ} (h : storeThree = some (w, head, w₁, w₂)) :
    Writer.open (oneAnodeBlockVolume 512) (fun _ => ⟨0, 0, 0⟩) = .ok w ∧
      createAnodeChain [12, 13, 15] w = .ok head w₁ ∧ updateRootblock w₁ = .ok () w₂ := by
  unfold storeThree at h
  split at h
  · cases h
  · rename_i w' hopen
    split at h
    · cases h
    · rename_i head' w₁' hrun
      split at h
      · cases h
      · rename_i w₂' hcommit
        cases h
        exact ⟨hopen, hrun, hcommit⟩

def storedThree : Evaluated storeThree fun r =>
    emptyRoot r.1 && r.1.slots.any (r.1.isFreeSlot r.1.blockOf) :=
  .of (by decide +kernel)

theorem createAnodeChain_stores_three : ∃ w w₁ w₂ head, w.Consistent ∧
    createAnodeChain [12, 13, 15] w = .ok head w₁ ∧ updateRootblock w₁ = .ok () w₂ ∧
    StoresChain w w₂ [12, 13, 15] head := by
  obtain ⟨⟨w, head, w₁, w₂⟩, hrun, hcheck⟩ := storedThree
  obtain ⟨hopen, hcreate, hcommit⟩ := of_storeThree hrun
  obtain ⟨hroot, hfree⟩ := (Bool.and_eq_true _ _).mp hcheck
  have hpos : 0 < w.freeSlots := List.countP_pos_iff.mpr (List.any_eq_true.mp hfree)
  have hruns : (clusters [12, 13, 15]).length = 2 := by decide
  obtain ⟨hw, -⟩ := of_emptyRoot hopen hroot
  exact ⟨w, w₁, w₂, head, hw, hcreate, hcommit,
    (createAnodeChain_stores_iff hw (by simp) (by decide) hcreate hcommit).mpr
      ⟨by omega, by rw [MAX_CHAIN_LEN]; decide⟩⟩

/-- A disk of 200 blocks with the metadata of the volume with one anode block, which is full. -/
def fullDisk : Device :=
  { oneAnodeBlock 512 with
    sectors := fun
      | 2 => .ofFields [(0, enc32 ID_PFS_DISK), (RB_OFF_OPTIONS, enc32 MODE_SPLITTED_ANODES),
          (RB_OFF_LASTRESERVED, enc32 9), (RB_OFF_FIRSTRESERVED, enc32 2),
          (RB_OFF_RESERVED_FREE, enc32 3), (RB_OFF_RESERVED_BLKSIZE, enc16 512),
          (RB_OFF_RBLKCLUSTER, enc16 2), (RB_OFF_DISKSIZE, enc32 200), (0x74, enc32 4)]
      | 5 => .ofFields [(0, enc16 ABLKID), (76, rootSlots),
          (88, (List.range 35).flatMap fun i => enc32 1 ++ enc32 (100 + i) ++ enc32 0)]
      | n => (oneAnodeBlock 512).sectors n
    total := 200 }

def loopingChain : Evaluated (some fullDisk) fun dev => whenOpened dev fun _ w =>
    decide (w.vol.rootblock.disksize = 200) &&
      match createAnodeChain [20, 22] w with
      | .error _ _ => false
      | .ok head w₁ =>
          match updateRootblock w₁ with
          | .error _ _ => false
          | .ok () w₂ =>
              match w₂.chainOf head with
              | .error _ => true
              | .ok _ => false :=
  .of (by decide +kernel)

/-- Two blocks that are not adjacent: the chain runs into itself. -/
theorem createAnodeChain_loops : ∃ v w w₁ w₂ head f, Volume.fromDevice fullDisk = .ok v ∧
    Writer.open v (fun _ => ⟨0, 0, 0⟩) = .ok w ∧ [20, 22].Nodup ∧
    (∀ b ∈ [20, 22], 10 ≤ b ∧ b < w.vol.rootblock.disksize) ∧
    createAnodeChain [20, 22] w = .ok head w₁ ∧ updateRootblock w₁ = .ok () w₂ ∧
    w₂.chainOf head = .error f ∧ ¬ StoresChain w w₂ [20, 22] head := by
  obtain ⟨_, ⟨⟩, hcheck⟩ := loopingChain
  obtain ⟨v, w, hv, hopen, hrun⟩ := of_whenOpened hcheck
  obtain ⟨hdisk, hrun⟩ := (Bool.and_eq_true _ _).mp hrun
  split at hrun
  · cases hrun
  · rename_i head w₁ hcreate
    split at hrun
    · cases hrun
    · rename_i w₂ hcommit
      split at hrun
      · rename_i f hchain
        refine ⟨v, w, w₁, w₂, head, f, hv, hopen, by decide, ?_, hcreate, hcommit, hchain, ?_⟩
        · rw [of_decide_eq_true hdisk]
          decide
        · rintro ⟨chain, hok, -⟩
          rw [hchain] at hok
          cases hok
      · cases hrun

end Writer

end Pfs3
