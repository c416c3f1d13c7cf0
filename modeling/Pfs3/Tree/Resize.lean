import Pfs3.Tree.Rename

/-!
# Rewriting files

`overwrite_file_in` keeps the object of a file: its chain is cut or gets new blocks at its end,
and the entry gets the new size.
-/

namespace Pfs3

open ByteList Stop

/-- The entry is one that `write_file` overwrites. -/
def Entry.IsPlain (e : Entry) : Prop := e.entryType = ST_FILE ∨ e.entryType = ST_ROLLOVERFILE

instance (e : Entry) : Decidable e.IsPlain := inferInstanceAs (Decidable (_ ∨ _))

theorem Entry.IsPlain.isDir {e : Entry} (h : e.IsPlain) : e.isDir = false := by
  have hbeq : e.isDir = (e.entryType == ST_USERDIR) := rfl
  rcases h with h | h <;> rw [hbeq, h] <;> decide

namespace Store

variable {S S' S₁ : Store} {T T' : Owners} {held : List ℕ}

theorem putSectors_append (l₁ l₂ : List ℕ) : ∀ (f : ℕ → Sector) (data : Bytes),
    putSectors f (l₁ ++ l₂) data =
      putSectors (putSectors f l₁ data) l₂ (data.drop (l₁.length * SECTOR_SIZE)) := by
  induction l₁ with
  | nil =>
      intro f data
      rw [List.length_nil, Nat.zero_mul, List.drop_zero]
      rfl
  | cons b l₁ ih =>
      intro f data
      rw [List.cons_append, putSectors, ih, List.drop_drop, List.length_cons, Nat.succ_mul,
        Nat.add_comm]
      rfl

theorem length_chainBlocks (l : List Anode) :
    (AnodeReader.chainBlocks l).length = (l.map Anode.clustersize).sum := by
  induction l with
  | nil => rfl
  | cons a l ih => rw [chainBlocks_cons, List.length_append, List.length_range', ih, List.map_cons,
      List.sum_cons]

/-- The object `f` holds `data` in `count` blocks; no other object and no directory changed. -/
structure Refilled (S S' : Store) (T : Owners) (f : ℕ) (m' : Node) (count : ℕ) (data : Bytes) :
    Prop where
  owned : S'.Owned (Function.update T f (some m')) []
  isDir : m'.isDir = false
  length : m'.blocks.length = count
  geo : S'.geo = S.geo
  disk : S'.disk = S.disk
  dirs : ∀ b, S.Taken b → S'.live.dir b = S.live.dir b
  data : S'.data = putSectors S.data m'.blocks data

/-- The blocks of a file lie in the data area. -/
theorem Owned.dataBlock (h : S.Owned T held) {f b : ℕ} {m : Node} (hf : T f = some m)
    (hm : m.isDir = false) (hb : b ∈ m.blocks) : S.geo.dataStart ≤ b ∧ b < S.geo.disksize := by
  have hkind := h.kind hf hb
  rw [hm] at hkind
  have hle : S.geo.dataStart ≤ b := by
    by_contra hlt
    exact absurd (hkind.mpr (by omega)) (by decide)
  exact ⟨hle, ((h.taken hf hb).data hle).1⟩

/-- Cutting a file to its first `count` blocks. -/
theorem post_shrink {f count : ℕ} {m : Node} {data : Bytes} (h : S.Owned T []) (hf : T f = some m)
    (hm : m.isDir = false) (hdisk : S.disk.Linked f m.chain) (hpos : 0 < count)
    (hle : count ≤ m.blocks.length) :
    Post (do
      writeDataBlocks (m.blocks.take count) data
      truncateAnodeChain f count) (fun _ S' => ∃ m', Refilled S S' T f m' count data) anyError S := by
  refine (post_writeDataBlocks _ data fun b hb =>
    h.dataBlock hf hm (List.mem_of_mem_take hb)).seq ?_
  rintro _ S₁ rfl
  generalize hS₁ : ({ S with data := putSectors S.data (m.blocks.take count) data } : Store) = S₁
  have hst₁ : S.Stays S₁ fun _ => False := by
    subst hS₁
    refine stays_of_eq ?_ ?_ ?_ ?_ _ <;> rfl
  have hown₁ : S₁.Owned T [] := by
    refine h.stays hst₁ (h.sane.of_eq ?_ ?_ ?_ ?_ ?_ ?_) <;> rw [← hS₁]
  have hdata₁ : S₁.data = putSectors S.data (m.blocks.take count) data := by rw [← hS₁]
  have hdirs₁ : S₁.live.dir = S.live.dir := by rw [← hS₁]
  clear hS₁
  unfold truncateAnodeChain
  refine (post_getChain f).seq ?_
  rintro c S₀ ⟨hS, hc, -⟩
  obtain rfl : S₁ = S₀ := hS.symm
  rw [hst₁.disk] at hc
  obtain rfl := hc.unique hdisk
  have hlen := length_chainBlocks m.chain
  have hf0 : f ≠ 0 := by
    rintro rfl
    rcases hmc : m.chain with _ | ⟨a, rest⟩
    · have : m.blocks.length = 0 := by
        rw [Node.blocks, hmc]
        rfl
      omega
    · rw [hmc] at hdisk
      exact hdisk.1 rfl
  refine (post_truncateLoop m.chain (hown₁.release hf) (fun b hb => ?_) hpos ?_
    (fun a ha => ?_) (hown₁.linked hf) (hown₁.anode_nodup hf) (hown₁.released hf)).mono ?_ fun _ _ h => h
  · rw [hst₁.geo]
    exact (h.dataBlock hf hm hb).1
  · rw [← hlen]
    exact hle
  · rw [hst₁.disk]
    exact hdisk.mem ha
  rintro _ S₂ ⟨hown₂, hl₂, hs₂⟩
  have hblocks : (⟨false, cut count m.chain⟩ : Node).blocks = m.blocks.take count :=
    chainBlocks_cut m.chain count
  have hgeo₂ : S₂.geo = S.geo := hs₂.geo.trans hst₁.geo
  have hadd := @Owned.add _ _ _ _ hown₂ f ⟨false, cut count m.chain⟩ hf0 hl₂
    (fun a ha => used_cut hpos (fun c hc => hown₁.used hf hc) ha)
    (fun a ha k n' a' hk ha' heq => ?_) (nodup_cut (hown₁.anode_nodup hf)) hblocks (fun b hb => ?_)
    fun hd => by cases hd
  · rw [Function.update_idem] at hadd
    refine ⟨_, hadd, rfl, ?_, hgeo₂, hs₂.disk.trans hst₁.disk, fun b _ => ?_, ?_⟩
    · rw [hblocks, List.length_take]
      omega
    · rw [hs₂.dir, hdirs₁]
    · rw [hs₂.data, hdata₁, hblocks]
  · obtain ⟨x, hx, hxn⟩ := List.mem_map.mp (nr_mem_of_mem_cut ha)
    exact hown₁.released hf x hx hk ha' (heq.trans hxn.symm)
  · have hb' := h.dataBlock hf hm (List.mem_of_mem_take hb)
    rw [hgeo₂]
    simp only [Bool.false_eq_true, false_iff]
    omega

/-- Appending new blocks to a file. -/
theorem post_grow {f count : ℕ} {m : Node} {data : Bytes} (h : S.Owned T []) (hf : T f = some m)
    (hm : m.isDir = false) (hdisk : S.disk.Linked f m.chain) (hgt : m.blocks.length < count)
    (hroom : S.Room (S.anodesFor (count - m.blocks.length))) :
    Post (do
      writeDataBlocks (m.blocks.take count) data
      let newBlocks ← allocDataBlocks (count - m.blocks.length)
      writeDataBlocks newBlocks (data.drop (m.blocks.length * SECTOR_SIZE))
      let newChainHead ← createAnodeChain newBlocks
      appendToAnodeChain f newChainHead)
      (fun _ S' => ∃ m', Refilled S S' T f m' count data) anyError S := by
  rw [List.take_of_length_le (by omega)]
  refine (post_writeDataBlocks _ data fun b hb => h.dataBlock hf hm hb).seq ?_
  rintro _ S₁ rfl
  generalize hS₁ : ({ S with data := putSectors S.data m.blocks data } : Store) = S₁
  have hst₁ : S.Stays S₁ fun _ => False := by
    subst hS₁
    refine stays_of_eq ?_ ?_ ?_ ?_ _ <;> rfl
  have hown₁ : S₁.Owned T [] := by
    refine h.stays hst₁ (h.sane.of_eq ?_ ?_ ?_ ?_ ?_ ?_) <;> rw [← hS₁]
  have hdata₁ : S₁.data = putSectors S.data m.blocks data := by rw [← hS₁]
  have hdirs₁ : S₁.live.dir = S.live.dir := by rw [← hS₁]
  have hroom₁ : S₁.Room (S₁.anodesFor (count - m.blocks.length) + 0) := by
    subst hS₁
    exact hroom.congr rfl rfl rfl
  clear hS₁
  have hnew := post_newBlocks (k := 0) hown₁ (data.drop (m.blocks.length * SECTOR_SIZE)) hroom₁
  have hseq : (do
      let newBlocks ← allocDataBlocks (count - m.blocks.length)
      writeDataBlocks newBlocks (data.drop (m.blocks.length * SECTOR_SIZE))
      let newChainHead ← createAnodeChain newBlocks
      appendToAnodeChain f newChainHead) = ((do
      let newBlocks ← allocDataBlocks (count - m.blocks.length)
      writeDataBlocks newBlocks (data.drop (m.blocks.length * SECTOR_SIZE))
      createAnodeChain newBlocks) >>= fun newChainHead => appendToAnodeChain f newChainHead) := by
    simp only [bind_assoc]
  rw [hseq]
  refine hnew.seq ?_
  rintro q S₂ ⟨chain, hown₂, hnone, -, hq, -, hst₂, hlen₂, hdata₂⟩
  have hfq : f ≠ q := by
    rintro rfl
    rw [hf] at hnone
    cases hnone
  have hf₂ : Function.update T q (some ⟨false, chain⟩) f = some m := by
    rw [Function.update_of_ne hfq, hf]
  have hdisk₂ : S₂.disk.Linked f m.chain := by
    rw [(hst₂ fun _ => False).disk, hst₁.disk]
    exact hdisk
  refine (post_appendToAnodeChain hown₂ hf₂ (Function.update_self _ _ _) hfq hm.symm hq hdisk₂).mono
    ?_ fun _ _ h => h
  rintro _ S₃ ⟨hown₃, tail, -, rfl⟩
  have hT : Function.update (Function.update (Function.update T q (some ⟨false, chain⟩)) q none) f
      (some ⟨m.isDir, relink q chain m.chain⟩) =
      Function.update T f (some ⟨m.isDir, relink q chain m.chain⟩) := by
    rw [Function.update_idem, ← hnone, Function.update_eq_self]
  rw [hT] at hown₃
  have hblocks : (⟨m.isDir, relink q chain m.chain⟩ : Node).blocks =
      m.blocks ++ AnodeReader.chainBlocks chain := chainBlocks_relink q chain m.chain
  refine ⟨_, hown₃, hm, ?_, (hst₂ fun _ => False).geo.trans hst₁.geo,
    (hst₂ fun _ => False).disk.trans hst₁.disk, fun b hb => ?_, ?_⟩
  · rw [hblocks, List.length_append, hlen₂]
    omega
  · show S₂.live.dir b = _
    rw [(hst₂ fun _ => False).dirs b (hst₁.taken b hb) fun h => h, hdirs₁]
  · show S₂.data = _
    rw [hdata₂, hdata₁, hblocks, putSectors_append]

/-! ## The calls -/

/-- The entry `e` of the directory `p` and its object got new data. -/
structure Rewritten (S S' : Store) (T : Owners) (p : ℕ) (e : Entry) (m' : Node) (now : Datestamp)
    (data : Bytes) : Prop where
  settled : S'.Settled (Function.update T e.anode.toNat (some m'))
  isDir : m'.isDir = false
  length : m'.blocks.length = Writer.blocksFor data.length % U32
  entry : e.isDir = false
  entries : ∃ l₁ l₂, entriesOf S.live T p = l₁ ++ e :: l₂ ∧
    entriesOf S'.live (Function.update T e.anode.toNat (some m')) p =
      l₁ ++ e.setSize data.length now :: l₂
  entries_other : ∀ q, q ≠ p →
    entriesOf S'.live (Function.update T e.anode.toNat (some m')) q = entriesOf S.live T q
  heads : ∀ b, S.Taken b → SameHead S S' b
  geo : S'.geo = S.geo
  data : S'.data = putSectors S.data m'.blocks data

/-- The last part of `overwrite_file_in`. -/
theorem post_resize {p : ℕ} {n m' : Node} {name : Name} {e : Entry} {data : Bytes}
    (h : S.Settled T) (hp : T p = some n) (hdir : n.isDir = true)
    (he : (entriesOf S.live T p).find? (matchesName name) = some e) (hed : e.isDir = false)
    (hfill : Refilled S S₁ T e.anode.toNat m' (Writer.blocksFor data.length % U32) data) :
    Post (do
      updateDirEntrySize p name data.length
      updateRootblock) (fun _ S' => ∃ now, Rewritten S S' T p e m' now data) anyError S₁ := by
  have hmem := List.mem_of_find?_eq_some he
  obtain ⟨m, hm, hmd⟩ := h.node hmem
  have hpe : p ≠ e.anode.toNat := by
    intro heq
    rw [← heq, hp] at hm
    cases hm
    rw [hed, hdir] at hmd
    cases hmd
  have hp₁ : Function.update T e.anode.toNat (some m') p = some n := by
    rw [Function.update_of_ne hpe, hp]
  have hdisk₁ : S₁.disk.Linked p n.chain := by
    rw [hfill.disk]
    exact h.linked hp
  refine (post_updateDirEntrySize hfill.owned hp₁ hdir hdisk₁ ⟨[], (List.append_nil _).symm⟩ name
    data.length).seq ?_
  rintro _ S₂ ⟨now, hedit⟩
  refine post_updateRootblock.mono ?_ fun _ _ h => h
  rintro _ S₃ hc
  obtain ⟨⟨l₁, x, l₂, hl, hx, hl₁, hl'⟩, hother⟩ := hedit.entriesOf hfill.owned hp₁ hdir
  have hsame : ∀ q, entriesOf S₁.live (Function.update T e.anode.toNat (some m')) q =
      entriesOf S.live T q := by
    intro q
    by_cases hq : q = e.anode.toNat
    · subst hq
      rw [entriesOf_file (Function.update_self _ _ _) hfill.isDir, entriesOf_file hm (hmd.trans hed)]
    · exact entriesOf_congr (Function.update_of_ne hq _ _) fun y hy hyd b hb =>
        hfill.dirs b (h.owned.taken hy hb)
  rw [hsame] at hl
  have hxe : x = e := by
    rw [hl, find?_middle hx hl₁] at he
    cases he
    rfl
  subst hxe
  have hkinds : kinds (Function.update T x.anode.toNat (some m')) = kinds T := by
    rw [kinds_update, hfill.isDir, ← hed, ← (h.forest.entry hmem).1, Function.update_eq_self]
  have hforest : Forest (kinds (Function.update T x.anode.toNat (some m')))
      (entriesOf S₂.live (Function.update T x.anode.toNat (some m'))) := by
    rw [hkinds]
    exact h.forest.change hl hl' rfl rfl fun q hq => (hother q hq).trans (hsame q)
  refine ⟨now,
    { settled := hc.settled hedit.owned hforest
      isDir := hfill.isDir
      length := hfill.length
      entry := hed
      entries := ⟨l₁, l₂, hl, by rw [hc.live]; exact hl'⟩
      entries_other := fun q hq => by rw [hc.live]; exact (hother q hq).trans (hsame q)
      heads := fun b hb d hd => ?_
      geo := hc.geo.trans (hedit.geo.trans hfill.geo)
      data := hc.data.trans (hedit.data.trans hfill.data) }⟩
  obtain ⟨d', hd', hhead⟩ := hedit.heads b d ((hfill.dirs b hb).trans hd)
  exact ⟨d', by rw [hc.live]; exact hd', hhead⟩

/-- The anodes that rewriting a file with `length` blocks needs. -/
def growAnodes (S : Store) (length : ℕ) (data : Bytes) : ℕ :=
  S.anodesFor (Writer.blocksFor data.length % U32 - length)

/-- Rewriting the file of the first entry called `name`. -/
theorem post_overwriteFileIn {p : ℕ} {n m : Node} {name : Name} {e : Entry} {data : Bytes}
    (h : S.Settled T) (hp : T p = some n) (hdir : n.isDir = true)
    (he : (entriesOf S.live T p).find? (matchesName name) = some e) (hed : e.isDir = false)
    (hm : T e.anode.toNat = some m) (hpos : 0 < Writer.blocksFor data.length % U32)
    (hroom : m.blocks.length < Writer.blocksFor data.length % U32 →
      S.Room (S.growAnodes m.blocks.length data)) :
    Post (overwriteFileIn p name e.anode.toNat data)
      (fun _ S' => ∃ m' now, Rewritten S S' T p e m' now data) anyError S := by
  have hmd : m.isDir = false := by
    obtain ⟨m₀, hm₀, hd₀⟩ := h.node (List.mem_of_find?_eq_some he)
    rw [hm] at hm₀
    cases hm₀
    exact hd₀.trans hed
  unfold growAnodes at hroom
  unfold overwriteFileIn
  generalize hcount : Writer.blocksFor data.length % U32 = count at hpos hroom ⊢
  refine (post_getChain _).seq ?_
  rintro c S₀ ⟨hS, hc, -⟩
  obtain rfl : S = S₀ := hS.symm
  obtain rfl := hc.unique (h.linked hm)
  have hlen : (m.chain.map Anode.clustersize).sum = m.blocks.length :=
    (length_chainBlocks m.chain).symm
  have hchain : AnodeReader.chainBlocks m.chain = m.blocks := rfl
  dsimp only
  rw [hlen, hchain]
  have hend : ∀ {S₁ : Store}, (∃ m', Refilled S S₁ T e.anode.toNat m' count data) →
      Post (do
        updateDirEntrySize p name data.length
        updateRootblock) (fun _ S' => ∃ m' now, Rewritten S S' T p e m' now data) anyError S₁ := by
    rintro S₁ ⟨m', hfill⟩
    rw [← hcount] at hfill
    refine (post_resize h hp hdir he hed hfill).mono ?_ fun _ _ h => h
    rintro _ S' ⟨now, hw⟩
    exact ⟨m', now, hw⟩
  by_cases hbig : U32 ≤ m.blocks.length
  · rw [if_pos hbig]
    exact trivial
  · rw [if_neg hbig]
    by_cases hle : count ≤ m.blocks.length
    · simp only [if_pos hle]
      have hfill := @post_shrink _ _ _ _ _ data h.owned hm hmd (h.linked hm) hpos hle
      have hall := hfill.seq fun _ _ hm' => hend hm'
      simp only [bind_assoc] at hall
      exact hall
    · simp only [if_neg hle]
      have hfill := @post_grow _ _ _ count _ data h.owned hm hmd (h.linked hm) (by omega)
        (hroom (by omega))
      have hall := hfill.seq fun _ _ hm' => hend hm'
      simp only [bind_assoc] at hall
      exact hall

/-! ## Existing entries -/

/-- The entry called `name` that a search in the directory `p` finds. -/
def found (S : Store) (p : ℕ) (name : Name) : Option Entry :=
  match S.disk.listEntries p with
  | .ok es => es.find? (matchesName name)
  | .error _ => none

theorem Settled.found {p : ℕ} {n : Node} {name : Name} {e : Entry} (h : S.Settled T)
    (hp : T p = some n) (hdir : n.isDir = true) (he : S.found p name = some e) :
    (entriesOf S.live T p).find? (matchesName name) = some e := by
  unfold Store.found at he
  rw [h.listEntries hp hdir (h.getChain hp)] at he
  exact he

/-- A failing search in readable blocks found nothing. -/
theorem post_loop_error (name : Name) (blks : List ℕ) :
    (∀ b ∈ blks, (S.live.dir b).isSome) →
    Post (findDirEntryLoop name blks) (fun _ _ => True)
      (fun _ _ => ∀ e ∈ S.live.listing blks, matchesName name e = false) S := by
  induction blks with
  | nil => exact fun _ => fun e he => absurd he List.not_mem_nil
  | cons b rest ih =>
      intro hblks
      obtain ⟨d, hd⟩ := Option.isSome_iff_exists.mp (hblks b List.mem_cons_self)
      have hrun : readDir b S = .ok d S := by
        have hread : S.live.readDir b = .ok d := by
          unfold Meta.readDir
          rw [hd]
        unfold readDir
        rw [bind_of_ok (rfl : (get : StoreM Store) S = .ok S S), hread]
        rfl
      have hfun : (fun e : Entry => nameEqCi e.text name) = matchesName name := rfl
      unfold findDirEntryLoop Post
      rw [bind_of_ok hrun, hfun]
      cases hi : d.entries.findIdx? (matchesName name) with
      | some i => exact trivial
      | none =>
          have hrest := ih fun c hc => hblks c (List.mem_cons_of_mem b hc)
          refine hrest.mono (fun _ _ h => h) fun _ _ hno e he => ?_
          rcases List.mem_append.mp he with he | he
          · rw [Meta.entriesAt, hd] at he
            exact List.findIdx?_eq_none_iff.mp hi e he
          · exact hno e he

/-- What an attempt to find an entry returns. -/
theorem post_tryFind {p : ℕ} {n : Node} (h : S.Settled T) (hp : T p = some n)
    (hdir : n.isDir = true) (name : Name) :
    Post (tryOk (findDirEntry p name)) (fun o S' => S' = S ∧
      ((o = none ∧ S.found p name = none) ∨
        ∃ b d i e, o = some (b, d, i) ∧ d.entries[i]? = some e ∧ S.found p name = some e))
      anyError S := by
  have hfind := (post_findDirEntry h.owned hp hdir (h.linked hp)
    ⟨[], (List.append_nil _).symm⟩ name).run
  refine (post_tryOk (readOnly_findDirEntry p name) hfind).run.mono ?_ fun _ _ h => h
  rintro o S' ⟨⟨rfl, ho⟩, hrun⟩
  refine ⟨rfl, ?_⟩
  have hget : getChain p S' = (liftM (S'.disk.getChain p) : StoreM (List Anode)) S' := rfl
  cases o with
  | none =>
      refine Or.inl ⟨rfl, ?_⟩
      cases hc : S'.disk.getChain p with
      | error f =>
          unfold found Meta.listEntries
          rw [hc]
          rfl
      | ok chain =>
          obtain rfl := (Meta.linked_of_getChain hc).1.unique (h.linked hp)
          rw [hc] at hget
          have hloop : findDirEntry p name S' = findDirEntryLoop name n.blocks S' := bind_of_ok hget
          have herr := post_loop_error (S := S') name n.blocks fun b hb => h.owned.content hp hdir hb
          unfold found
          rw [h.listEntries hp hdir hc]
          refine List.find?_eq_none.mpr fun e he => ?_
          rw [entriesOf_dir hp hdir] at he
          unfold tryOk at hrun
          rw [hloop] at hrun
          rcases hl : findDirEntryLoop name n.blocks S' with ⟨r, S''⟩ | ⟨f | _, S''⟩ <;>
            rw [hl] at hrun
          · cases hrun
          · rw [herr.raise hl e he]
            exact Bool.false_ne_true
          · cases hrun
  | some r =>
      obtain ⟨b, d, i⟩ := r
      obtain ⟨⟨-, hf⟩, hok⟩ := ho _ rfl
      right
      obtain ⟨x, e, y, hxy, hlen, he, hx⟩ := split_of_findIdx? hf.first
      refine ⟨b, d, i, e, rfl, ?_, ?_⟩
      · show d.entries[i]? = some e
        have hxy' : d.entries = x ++ e :: y := hxy
        have hlen' : x.length = i := hlen
        rw [hxy', ← hlen', List.getElem?_append_right (le_refl _), Nat.sub_self]
        rfl
      · cases hc : S'.disk.getChain p with
        | error f =>
            rw [hc] at hget
            have hbad : findDirEntry p name S' = .error f S' := bind_of_error hget
            rw [hbad] at hok
            cases hok
        | ok chain =>
            unfold found
            rw [h.listEntries hp hdir hc, entriesOf_dir hp hdir]
            obtain ⟨l₁, l₂, hsplit, hno⟩ := hf.split
            have hat : S'.live.entriesAt b = x ++ e :: y := by
              rw [Meta.entriesAt, hf.dir, ← hxy]
              rfl
            have hlist : S'.live.listing n.blocks =
                (S'.live.listing l₁ ++ x) ++ e :: (y ++ S'.live.listing l₂) := by
              rw [hsplit, Meta.listing_append]
              show _ ++ (S'.live.entriesAt b ++ S'.live.listing l₂) = _
              rw [hat]
              simp only [List.append_assoc, List.cons_append]
            show (S'.live.listing n.blocks).find? _ = _
            rw [hlist]
            refine find?_middle he fun z hz => ?_
            rcases List.mem_append.mp hz with hz | hz
            · exact hno z hz
            · exact hx z hz

/-- What `write_file` does in a directory: it overwrites a file of that name or creates one. -/
theorem post_writeFileIn {p : ℕ} {n : Node} {name : Name} {data : Bytes} (h : S.Settled T)
    (hp : T p = some n) (hdir : n.isDir = true)
    (hover : ∀ e m, S.found p name = some e → e.IsPlain → T e.anode.toNat = some m →
      0 < Writer.blocksFor data.length % U32 ∧
        (m.blocks.length < Writer.blocksFor data.length % U32 →
          S.Room (S.growAnodes m.blocks.length data)))
    (hcreate : (∀ e, S.found p name = some e → ¬ e.IsPlain) → ∃ k, S.Room (S.dataAnodes data + k) ∧
      ∀ now nr, ¬ S.HasSpace n.blocks (Entry.build now name ST_FILE nr data.length 0).size → k = 1) :
    Post (writeFileIn p name data) (fun _ S' =>
      (∃ e m' now, S.found p name = some e ∧ e.IsPlain ∧ Rewritten S S' T p e m' now data) ∨
      ((∀ e, S.found p name = some e → ¬ e.IsPlain) ∧ ∃ T' nr m now,
        Entered S S' T T' p nr m (Entry.build now name ST_FILE nr data.length 0) ∧
        StoredAs S S' m data)) anyError S := by
  have hnew : (∀ e, S.found p name = some e → ¬ e.IsPlain) → Post (do
      writeFileInNoCommit p name data
      updateRootblock) (fun _ S' =>
      (∃ e m' now, S.found p name = some e ∧ e.IsPlain ∧ Rewritten S S' T p e m' now data) ∨
      ((∀ e, S.found p name = some e → ¬ e.IsPlain) ∧ ∃ T' nr m now,
        Entered S S' T T' p nr m (Entry.build now name ST_FILE nr data.length 0) ∧
        StoredAs S S' m data)) anyError S := by
    intro hno
    obtain ⟨k, hroom, hk⟩ := hcreate hno
    exact (post_createFile h hp hdir hroom hk).mono (fun _ _ hres => Or.inr ⟨hno, hres⟩)
      fun _ _ h => h
  unfold writeFileIn
  refine (post_tryFind h hp hdir name).seq ?_
  rintro o S₀ ⟨hS, ho⟩
  obtain rfl : S = S₀ := hS.symm
  rcases ho with ⟨rfl, hnone⟩ | ⟨b, d, i, e, rfl, hi, hsome⟩
  · exact hnew fun e he => by rw [hnone] at he; cases he
  · dsimp only
    rw [hi]
    dsimp only
    by_cases hplain : e.IsPlain
    · have htype : e.entryType = ST_FILE ∨ e.entryType = ST_ROLLOVERFILE := hplain
      rw [if_pos htype]
      have he := h.found hp hdir hsome
      obtain ⟨m, hm, hmd⟩ := h.node (List.mem_of_find?_eq_some he)
      obtain ⟨hpos, hroom⟩ := hover e m hsome hplain hm
      refine (post_overwriteFileIn h hp hdir he hplain.isDir hm hpos hroom).mono ?_ fun _ _ h => h
      rintro _ S' ⟨m', now, hw⟩
      exact Or.inl ⟨e, m', now, hsome, hplain, hw⟩
    · have htype : ¬ (e.entryType = ST_FILE ∨ e.entryType = ST_ROLLOVERFILE) := hplain
      rw [if_neg htype]
      refine hnew fun e' he' => ?_
      rw [hsome] at he'
      cases he'
      exact hplain

end Store

end Pfs3
