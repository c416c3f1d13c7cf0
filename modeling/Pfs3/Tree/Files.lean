import Pfs3.Tree.Alloc

/-!
# Stored data

Data blocks are handed out once, and a call that stores data ends with a new object that owns
its blocks.
-/

namespace Pfs3

open ByteList Stop

/-! ## Runs of blocks -/

namespace Writer

theorem clusters_blocks (bs : List ℕ) :
    (clusters bs).flatMap (fun p => List.range' p.1 p.2) = bs := by
  induction bs with
  | nil => rfl
  | cons b rest ih =>
      unfold clusters
      rcases hc : clusters rest with _ | ⟨⟨start, count⟩, more⟩
      · rw [hc] at ih
        rw [← ih]
        rfl
      · rw [hc] at ih
        dsimp only
        split
        · rename_i hs
          rw [← ih, List.flatMap_cons, List.flatMap_cons, List.range'_succ, ← hs]
          rfl
        · rw [← ih]
          rfl

theorem clusters_spec (bs : List ℕ) : ∀ p ∈ clusters bs, 0 < p.2 ∧ p.2 ≤ bs.length ∧ p.1 ∈ bs := by
  induction bs with
  | nil => exact fun _ h => absurd h List.not_mem_nil
  | cons b rest ih =>
      unfold clusters
      rcases hc : clusters rest with _ | ⟨⟨start, count⟩, more⟩
      · intro p hp
        rcases List.mem_singleton.mp hp with rfl
        exact ⟨Nat.one_pos, by simp, List.mem_cons_self⟩
      · rw [hc] at ih
        have hfirst := ih _ List.mem_cons_self
        have hmore : ∀ p ∈ more, 0 < p.2 ∧ p.2 ≤ (b :: rest).length ∧ p.1 ∈ b :: rest := by
          intro p hp
          obtain ⟨h₁, h₂, h₃⟩ := ih p (List.mem_cons_of_mem _ hp)
          exact ⟨h₁, by rw [List.length_cons]; omega, List.mem_cons_of_mem b h₃⟩
        dsimp only
        split
        · intro p hp
          rcases List.mem_cons.mp hp with rfl | hp
          · exact ⟨Nat.succ_pos _, by rw [List.length_cons]; exact Nat.succ_le_succ hfirst.2.1,
              List.mem_cons_self⟩
          · exact hmore p hp
        · intro p hp
          rcases List.mem_cons.mp hp with rfl | hp
          · exact ⟨Nat.one_pos, by rw [List.length_cons]; omega, List.mem_cons_self⟩
          · rcases List.mem_cons.mp hp with rfl | hp
            · exact ⟨hfirst.1, by rw [List.length_cons]; exact Nat.le_succ_of_le hfirst.2.1,
                List.mem_cons_of_mem b hfirst.2.2⟩
            · exact hmore p hp

theorem length_clusters_le (bs : List ℕ) : (clusters bs).length ≤ bs.length := by
  induction bs with
  | nil => exact le_rfl
  | cons b rest ih =>
      unfold clusters
      rcases hc : clusters rest with _ | ⟨⟨start, count⟩, more⟩
      · exact Nat.succ_le_succ (Nat.zero_le _)
      · rw [hc] at ih
        dsimp only
        split
        · exact ih.trans (Nat.le_succ _)
        · exact Nat.succ_le_succ ih

theorem clusters_ne_nil {bs : List ℕ} (h : bs ≠ []) : clusters bs ≠ [] := by
  intro hnil
  have hblocks := clusters_blocks bs
  rw [hnil] at hblocks
  exact h hblocks.symm

end Writer

namespace Store

variable {S S' : Store} {T : Owners} {held : List ℕ} {X : ℕ → Prop}

/-- Nothing is lost where nothing but counters, the clock or the data changes. -/
theorem stays_of_eq (hgeo : S'.geo = S.geo) (hdisk : S'.disk = S.disk) (hlive : S'.live = S.live)
    (hres : S'.resFree = S.resFree) (X : ℕ → Prop) : S.Stays S' X where
  geo := hgeo
  disk := hdisk
  taken b hb := by
    unfold Taken
    rw [hgeo, hlive, hres]
    exact hb
  content b _ hd := hlive ▸ hd
  dirs b _ _ := by rw [hlive]
  anode nr a ha _ := hlive ▸ ha

theorem Sane.of_eq (h : S.Sane) (hgeo : S'.geo = S.geo) (hdisk : S'.disk = S.disk)
    (hlive : S'.live = S.live) (hres : S'.resFree = S.resFree)
    (hblocks : S'.blocksfree = S.blocksfree) (hreserved : S'.reservedFree = S.reservedFree) :
    S'.Sane := by
  refine ⟨?_, ?_, ?_, ?_, ?_, ?_⟩
  · rw [hres, hgeo, hlive]
    exact h.reserve
  · rw [hres, hgeo, hlive]
    exact h.index
  · rw [hdisk, hlive]
    exact h.disk
  · unfold freeBlocks
    rw [hblocks, hgeo, hlive]
    exact h.blocks
  · unfold freeReserved
    rw [hreserved, hgeo, hres]
    exact h.reserved
  · rw [hlive, hgeo]
    exact h.bound

/-- Newly taken blocks are held. -/
theorem Owned.hold (h : S.Owned T held) (hst : S.Stays S' X) (hsane : S'.Sane) {bs : List ℕ}
    (hnodup : bs.Nodup) (hnew : ∀ b ∈ bs, S'.Taken b ∧ ¬ S.Taken b) : S'.Owned T (bs ++ held) := by
  have h' := h.stays hst hsane
  refine { h' with held_taken := ?_, held_free := ?_, held_nodup := ?_ }
  · intro b hb
    rcases List.mem_append.mp hb with hb | hb
    · exact (hnew b hb).1
    · exact h'.held_taken b hb
  · intro b hb a n hn hbn
    rcases List.mem_append.mp hb with hb | hb
    · exact (hnew b hb).2 (h.taken hn hbn)
    · exact h'.held_free b hb hn hbn
  · refine List.nodup_append.mpr ⟨hnodup, h.held_nodup, ?_⟩
    rintro b hb c hc rfl
    exact (hnew b hb).2 (h.held_taken b hc)

/-! ## Data blocks -/

/-- The store after the first `count` free data blocks are taken. -/
def takeData (count : ℕ) (S : Store) : Store :=
  { S with
    live.free := fun r => S.live.free r && decide (r ∉ S.freeBlocks.take count)
    blocksfree := S.blocksfree - count }

/-- The blocks that `alloc_data_blocks` hands out. -/
def firstFree (S : Store) (count : ℕ) : List ℕ :=
  (S.freeBlocks.take count).map fun r => S.geo.dataStart + r

theorem post_allocDataBlocks (count : ℕ) :
    Post (allocDataBlocks count) (fun bs S' => 0 < count ∧ count ≤ S.freeBlocks.length ∧
      bs = S.firstFree count ∧ S' = takeData count S) anyError S := by
  unfold allocDataBlocks
  refine post_get ?_
  by_cases hc : 0 < count ∧ count ≤ S.freeBlocks.length
  · dsimp only
    rw [if_pos hc]
    refine post_set (post_lift fun n hn => post_modify (post_pure ⟨hc.1, hc.2, rfl, ?_⟩))
    have hn' : subU32 S.blocksfree count = .ok n := hn
    unfold subU32 at hn'
    split at hn'
    · cases hn'
      rfl
    · cases hn'
  · dsimp only
    rw [if_neg hc]
    exact post_set post_fail

theorem mem_firstFree {count b : ℕ} (h : b ∈ S.firstFree count) :
    ∃ r, b = S.geo.dataStart + r ∧ r < S.geo.dataBlocks ∧ S.live.free r = true ∧
      r ∈ S.freeBlocks.take count := by
  obtain ⟨r, hr, rfl⟩ := List.mem_map.mp h
  obtain ⟨hlt, hfree⟩ := List.mem_filter.mp (List.mem_of_mem_take hr)
  exact ⟨r, rfl, List.mem_range.mp hlt, hfree, hr⟩

theorem nodup_firstFree (count : ℕ) : (S.firstFree count).Nodup := by
  refine List.Nodup.map (fun a b hab => ?_)
    ((List.nodup_range.filter _).sublist (List.take_sublist _ _))
  have heq : S.geo.dataStart + a = S.geo.dataStart + b := hab
  omega

theorem length_firstFree {count : ℕ} (h : count ≤ S.freeBlocks.length) :
    (S.firstFree count).length = count := by
  rw [firstFree, List.length_map, List.length_take]
  omega

theorem length_freeBlocks_le (S : Store) : S.freeBlocks.length ≤ S.geo.dataBlocks :=
  (List.length_filter_le _ _).trans (by rw [List.length_range])

theorem stays_takeData (count : ℕ) (X : ℕ → Prop) : S.Stays (takeData count S) X where
  geo := rfl
  disk := rfl
  taken b hb := by
    rcases hb with hb | ⟨h₁, h₂, h₃⟩
    · exact Or.inl hb
    · refine Or.inr ⟨h₁, h₂, ?_⟩
      show (S.live.free (b - S.geo.dataStart) && _) = false
      rw [h₃, Bool.false_and]
  content _ _ hd := hd
  dirs _ _ _ := rfl
  anode _ _ ha _ := ha

/-- Taking the first free blocks leaves the others. -/
theorem freeBlocks_takeData (count : ℕ) :
    (takeData count S).freeBlocks = S.freeBlocks.drop count := by
  have hfilter : (takeData count S).freeBlocks =
      S.freeBlocks.filter fun r => decide (r ∉ S.freeBlocks.take count) := by
    unfold freeBlocks
    rw [List.filter_filter]
    apply List.filter_congr
    intro r _
    show (S.live.free r && _) = _
    rw [Bool.and_comm]
    rfl
  have hnodup : S.freeBlocks.Nodup := List.nodup_range.filter _
  rw [hfilter]
  generalize S.freeBlocks = l at hnodup
  have hl := List.take_append_drop count l
  have hdis := (List.nodup_append.mp (hl.symm ▸ hnodup)).2.2
  conv_lhs => rw [← hl]
  rw [List.filter_append, List.filter_eq_nil_iff.mpr, List.filter_eq_self.mpr, List.nil_append]
  · intro r hr
    rw [hl]
    simp only [decide_eq_true_eq]
    exact fun hmem => hdis r hmem r hr rfl
  · intro r hr
    rw [hl]
    simpa using hr

theorem Sane.takeData (h : S.Sane) (count : ℕ) : (takeData count S).Sane where
  reserve := h.reserve
  index := h.index
  disk := h.disk
  blocks := by
    rw [freeBlocks_takeData, List.length_drop, ← h.blocks]
    rfl
  reserved := h.reserved
  bound r hr := by
    have hr' : (S.live.free r && decide (r ∉ S.freeBlocks.take count)) = true := hr
    exact h.bound r (Bool.and_eq_true _ _ ▸ hr').1

theorem taken_firstFree {count b : ℕ} (h : b ∈ S.firstFree count) :
    (takeData count S).Taken b ∧ ¬ S.Taken b := by
  obtain ⟨r, rfl, hlt, hfree, hr⟩ := mem_firstFree h
  have hdata := S.geo.data
  have hstart : S.geo.dataStart = 2 * S.geo.numreserved + 2 := rfl
  have hblocks : S.geo.dataBlocks = S.geo.disksize - S.geo.dataStart := rfl
  have hsub : S.geo.dataStart + r - S.geo.dataStart = r := by omega
  constructor
  · refine Or.inr ⟨Nat.le_add_right _ _, ?_, ?_⟩
    · show S.geo.dataStart + r < S.geo.disksize
      omega
    · show (S.live.free (S.geo.dataStart + r - S.geo.dataStart) &&
        decide (S.geo.dataStart + r - S.geo.dataStart ∉ S.freeBlocks.take count)) = false
      rw [hsub, decide_eq_false (fun hn => hn hr), Bool.and_false]
  · rintro (⟨hdyn, -⟩ | ⟨-, -, hused⟩)
    · have := Taken.lt hdyn
      omega
    · rw [hsub, hfree] at hused
      cases hused

/-- The data area with `data` in the blocks, one sector each. -/
def putSectors (f : ℕ → Sector) : List ℕ → Bytes → ℕ → Sector
  | [], _ => f
  | blk :: rest, data =>
      putSectors (Function.update f blk (Sector.ofBytes data)) rest (data.drop SECTOR_SIZE)

theorem post_writeDataBlocks (bs : List ℕ) : ∀ {S : Store} (data : Bytes),
    (∀ b ∈ bs, S.geo.dataStart ≤ b ∧ b < S.geo.disksize) →
    Post (writeDataBlocks bs data) (fun _ S' => S' = { S with data := putSectors S.data bs data })
      anyError S := by
  induction bs with
  | nil => exact fun _ _ => post_pure rfl
  | cons b rest ih =>
      intro S data hbs
      unfold writeDataBlocks
      refine post_get ?_
      have hb := hbs b List.mem_cons_self
      rw [if_neg (by omega)]
      refine post_set ?_
      exact ih (S := { S with data := Function.update S.data b (Sector.ofBytes data) }) _
        fun c hc => hbs c (List.mem_cons_of_mem b hc)

/-- The number of anodes for `count` newly taken data blocks. -/
def anodesFor (S : Store) (count : ℕ) : ℕ := (Writer.clusters (S.firstFree count)).length

/-- Storing data in `count` new blocks ends with a new object. -/
theorem post_newBlocks {count k : ℕ} (h : S.Owned T held) (data : Bytes)
    (hroom : S.Room (S.anodesFor count + k)) :
    Post (do
      let blocks ← allocDataBlocks count
      writeDataBlocks blocks data
      createAnodeChain blocks) (fun nr S' => ∃ chain,
      S'.Owned (Function.update T nr (some ⟨false, chain⟩)) held ∧ T nr = none ∧ nr ≠ 0 ∧ nr < U32 ∧
      S'.Room k ∧ (∀ X, S.Stays S' X) ∧ (AnodeReader.chainBlocks chain).length = count ∧
      S'.data = putSectors S.data (AnodeReader.chainBlocks chain) data) anyError S := by
  refine (post_allocDataBlocks _).seq ?_
  rintro _ _ ⟨hpos, hle, rfl, rfl⟩
  have hlen := length_firstFree hle
  have hown := h.hold (stays_takeData count fun _ => False)
    (h.sane.takeData _) (nodup_firstFree _) fun b hb => taken_firstFree hb
  have harea : ∀ b ∈ S.firstFree count,
      S.geo.dataStart ≤ b ∧ b < S.geo.disksize := by
    intro b hb
    obtain ⟨r, rfl, hlt, -, -⟩ := mem_firstFree hb
    have hblocks : S.geo.dataBlocks = S.geo.disksize - S.geo.dataStart := rfl
    omega
  generalize hbs : S.firstFree count = bs at hown harea hlen
  refine (post_writeDataBlocks (S := takeData count S) bs data
    harea).seq ?_
  rintro _ S₁ rfl
  have hst₁ : (takeData count S).Stays
      { takeData count S with
        data := putSectors S.data bs data } fun _ => False := by
    refine stays_of_eq ?_ ?_ ?_ ?_ _ <;> rfl
  have hown₁ := hown.stays hst₁ (hown.sane.of_eq rfl rfl rfl rfl rfl rfl)
  have hsmall := S.geo.disksize_lt
  have hu : U32 = 4294967296 := rfl
  have hcl : ∀ p ∈ Writer.clusters bs, 0 < p.2 ∧ p.2 < U32 ∧ p.1 < U32 := by
    intro p hp
    obtain ⟨h₁, h₂, h₃⟩ := Writer.clusters_spec bs p hp
    have hp₁ := harea _ h₃
    rw [hlen] at h₂
    have hfree := length_freeBlocks_le S
    have hblocks : S.geo.dataBlocks = S.geo.disksize - S.geo.dataStart := rfl
    exact ⟨h₁, by omega, by omega⟩
  have hroom₁ : ({ takeData count S with
      data := putSectors S.data bs data } : Store).Room ((Writer.clusters bs).length + k) := by
    rw [← hbs]
    exact Room.congr (S := S) hroom rfl rfl rfl
  refine (post_createAnodes (Writer.clusters bs) hown₁.sane hcl hroom₁).mono ?_ fun _ _ h => h
  rintro nr S₂ ⟨hsane, hroom₂, hst₂, hnr, hne, chain, hchain, hblocks⟩
  rw [Writer.clusters_blocks] at hblocks
  have hbs0 : bs ≠ [] := by
    intro hnil
    rw [hnil] at hlen
    simp at hlen
    omega
  have h0 := hne (Writer.clusters_ne_nil hbs0)
  have hown₂ := hown₁.stays (hst₂ fun _ => False) hsane
  have hall : ∀ X, S.Stays S₂ X := fun X =>
    ((stays_takeData _ X).trans (hst₁.mono fun _ h => h.elim)).trans (hst₂ X)
  have hkey : ∀ a ∈ chain, ∀ {j : ℕ} {m : Node} {c : Anode}, T j = some m → c ∈ m.chain →
      c.nr ≠ a.nr := fun a ha _ _ _ hj hc => hown₁.unowned hj hc (hchain.unused a ha)
  have hnone : T nr = none := by
    rcases hc : chain with _ | ⟨a, rest⟩
    · rw [hc] at hchain
      exact absurd hchain.linked h0
    · have hhead : a.nr = nr := by
        have hl := hchain.linked
        rw [hc] at hl
        exact hl.head
      have hun := hchain.unused a (by rw [hc]; exact List.mem_cons_self)
      rw [hhead] at hun
      exact hown₁.none_of_unused hun h0
  refine ⟨chain, ?_, hnone, h0, hnr, hroom₂, hall, ?_, ?_⟩
  · refine Owned.add (n := ⟨false, chain⟩) hown₂ h0 hchain.linked hchain.used hkey hchain.nodup hblocks
      (fun b hb => ?_) fun hd => by cases hd
    have hb' := harea b hb
    have hgeo : S₂.geo = S.geo := (hall fun _ => False).geo
    rw [hgeo]
    simp only [Bool.false_eq_true, false_iff]
    omega
  · rw [hblocks, hlen]
  · rw [hblocks, hchain.data]

/-- Storing data ends with a new object. -/
theorem post_storeData {k : ℕ} (h : S.Owned T held) (data : Bytes)
    (hroom : S.Room (S.anodesFor (Writer.blocksFor data.length % U32) + k)) :
    Post (storeData data) (fun nr S' => ∃ chain,
      S'.Owned (Function.update T nr (some ⟨false, chain⟩)) held ∧ T nr = none ∧ nr ≠ 0 ∧ nr < U32 ∧
      S'.Room k ∧ (∀ X, S.Stays S' X) ∧
      (AnodeReader.chainBlocks chain).length = Writer.blocksFor data.length % U32 ∧
      S'.data = putSectors S.data (AnodeReader.chainBlocks chain) data) anyError S :=
  post_newBlocks h data hroom

end Store

end Pfs3
