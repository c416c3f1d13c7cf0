import Pfs3.Store.Counts
import Pfs3.Tree.Entries
import Pfs3.Walk.Verdict

/-!
# No false alarm

`check` finds nothing wrong on a volume whose objects own their blocks: it meets every object
once, its blocks are recorded by nobody else, and the counters are the ones it counts.
-/

namespace Pfs3

open ByteList BlockCache Stop Store

/-! ## Below a directory -/

/-- The object `q` lies `j` directories below `a`. -/
inductive Below (L : ℕ → List Entry) (a : ℕ) : ℕ → ℕ → Prop
  | self : Below L a 0 a
  | entry {j p : ℕ} {e : Entry} (dir : Below L a j p) (mem : e ∈ L p) :
      Below L a (j + 1) e.anode.toNat

namespace Below

variable {K : ℕ → Option Bool} {L : ℕ → List Entry} {a a' p q : ℕ}

theorem trans {j k : ℕ} (h : Below L a j p) (h' : Below L p k q) : Below L a (j + k) q := by
  induction h' with
  | self => exact h
  | entry _ he ih => exact .entry ih he

/-- What lies below an entry of `a`. -/
theorem of_entry {k : ℕ} {e : Entry} (he : e ∈ L a) (h : Below L e.anode.toNat k q) :
    Below L a (k + 1) q := by
  rw [Nat.add_comm]
  exact (Below.entry .self he).trans h

/-- There is one object that many levels above `q`. -/
theorem up (h : Forest K L) {j : ℕ} (hq : Below L a j q) (hq' : Below L a' j q) : a = a' := by
  induction j generalizing q with
  | zero =>
      cases hq
      cases hq'
      rfl
  | succ j ih =>
      generalize hx : q = x at hq'
      cases hq with
      | entry hp he =>
          cases hq' with
          | entry hp' he' =>
              have hpp := h.parent he he' (UInt32.toNat_inj.mp hx)
              exact ih hp (hpp ▸ hp')

/-- An object lies on one level below the root. -/
theorem depth (h : Forest K L) {j : ℕ} : ∀ {j' q : ℕ}, Below L ANODE_ROOTDIR j q →
    Below L ANODE_ROOTDIR j' q → j = j' := by
  induction j with
  | zero =>
      intro j' q hq hq'
      cases hq
      generalize hx : ANODE_ROOTDIR = x at hq'
      cases hq' with
      | self => rfl
      | entry _ he => exact absurd hx.symm (hx ▸ (h.entry he).2)
  | succ j ih =>
      intro j' q hq hq'
      cases hq with
      | entry hp he =>
          rename_i p e
          generalize hx : e.anode.toNat = x at hq'
          cases hq' with
          | self => exact absurd hx (h.entry he).2
          | entry hp' he' =>
              have hpp := h.parent he he' (UInt32.toNat_inj.mp hx)
              rw [ih hp (hpp ▸ hp')]

end Below

/-- The anodes of a chain have numbers. -/
theorem Meta.Linked.ne_zero {m : Meta} : ∀ {l : List Anode} {nr : ℕ}, m.Linked nr l →
    ∀ a ∈ l, a.nr ≠ 0
  | _ :: _, _, h, a, ha => by
      rcases List.mem_cons.mp ha with rfl | ha
      · rw [h.head]
        exact h.1
      · exact h.2.2.ne_zero a ha

namespace Check

/-! ## Parts of a scan without a finding -/

/-- From a state without findings and with `P` the part ends in one with `Q`. -/
def Quiet (v : Volume) (g : Geometry) (P : Ctx → Prop) (m : ScanM Unit) (Q : Ctx → Prop) : Prop :=
  ∀ s, v.Same g s.vol → s.ctx.errors = 0 → s.ctx.warnings = 0 → P s.ctx →
    ∃ s', m s = .ok () s' ∧ v.Same g s'.vol ∧ s'.ctx.errors = 0 ∧ s'.ctx.warnings = 0 ∧ Q s'.ctx

namespace Quiet

variable {v : Volume} {g : Geometry} {P Q R : Ctx → Prop}

theorem pure (h : ∀ c, P c → Q c) : Quiet v g P (Pure.pure ()) Q :=
  fun s hs he hw hP => ⟨s, rfl, hs, he, hw, h _ hP⟩

theorem note {f : Ctx → Ctx} (h : ∀ c, c.errors = 0 → c.warnings = 0 → P c →
    (f c).errors = 0 ∧ (f c).warnings = 0 ∧ Q (f c)) : Quiet v g P (Check.note f) Q := by
  intro s hs he hw hP
  obtain ⟨he', hw', hQ⟩ := h s.ctx he hw hP
  exact ⟨_, rfl, hs, he', hw', hQ⟩

theorem seq {m k : ScanM Unit} (hm : Quiet v g P m Q) (hk : Quiet v g Q k R) :
    Quiet v g P (do m; k) R := by
  intro s hs he hw hP
  obtain ⟨s₁, hrun, hs₁, he₁, hw₁, hQ⟩ := hm s hs he hw hP
  obtain ⟨s₂, hrun₂, hs₂, he₂, hw₂, hR⟩ := hk s₁ hs₁ he₁ hw₁ hQ
  exact ⟨s₂, (bind_of_ok hrun).trans hrun₂, hs₂, he₂, hw₂, hR⟩

/-- A call on the volume, whose answer is known. -/
theorem ask {α β : Type} {m : VolumeM α} {b : β} {A : α → β → Prop} {k : Except Error α → ScanM Unit}
    (hm : Reads (v.Same g) A m (.ok b)) (hk : ∀ a, A a b → Quiet v g P (k (.ok a)) Q) :
    Quiet v g P (Check.ask m >>= k) Q := by
  intro s hs he hw hP
  obtain ⟨a, v', hrun, hA, hv'⟩ := hm.ok hs
  have hask : Check.ask m s = .ok (.ok a) { s with vol := v' } := by
    simp only [Check.ask, hrun]
  obtain ⟨s₁, hrun₁, hrest⟩ := hk a hA { s with vol := v' } hv' he hw hP
  exact ⟨s₁, (bind_of_ok hask).trans hrun₁, hrest⟩

theorem checked {α : Type} {e : Except Fault α} {a : α} {k : α → ScanM Unit} (he : e = .ok a)
    (hk : Quiet v g P (k a) Q) : Quiet v g P (Check.checked e >>= k) Q := by
  subst he
  exact hk

/-- A loop, with an invariant about the entries it has dealt with. -/
theorem forM {f : DirEntry → ScanM Unit} (I : List Entry → Ctx → Prop) (l₂ : List Entry) :
    ∀ l₁, (∀ x e y, x ++ e :: y = l₁ ++ l₂ → Quiet v g (I x) (f e.toDirEntry) (I (x ++ [e]))) →
    Quiet v g (I l₁) ((l₂.map Entry.toDirEntry).forM f) (I (l₁ ++ l₂)) := by
  induction l₂ with
  | nil =>
      intro l₁ _
      rw [List.append_nil]
      exact pure fun _ h => h
  | cons e l₂ ih =>
      intro l₁ h
      have hrest := ih (l₁ ++ [e]) fun x e' y hxy => h x e' y (by rw [hxy, List.append_assoc]; rfl)
      rw [List.append_assoc] at hrest
      exact (h l₁ e l₂ rfl).seq hrest

end Quiet

/-! ## Recorded blocks -/

/-- Blocks that nobody has recorded. -/
theorem recordBlocks_new (owner : Name) (blocks : List ℕ) : ∀ c : Ctx, blocks.Nodup →
    (∀ b ∈ blocks, (c.usedBlocks.lookup b).isSome = false) →
    (Ctx.recordBlocks blocks owner c).errors = c.errors ∧
      (Ctx.recordBlocks blocks owner c).usedAnodes = c.usedAnodes ∧
      ∀ k, ((Ctx.recordBlocks blocks owner c).usedBlocks.lookup k).isSome →
        (c.usedBlocks.lookup k).isSome ∨ k ∈ blocks := by
  induction blocks with
  | nil => exact fun _ _ _ => ⟨rfl, rfl, fun _ h => Or.inl h⟩
  | cons b blocks ih =>
      intro c hnodup hnew
      rw [List.nodup_cons] at hnodup
      have hb := hnew b List.mem_cons_self
      have herr := errors_recordBlock owner c b
      rw [if_neg (by rw [hb]; decide)] at herr
      have hanodes : (Ctx.recordBlock owner c b).usedAnodes = c.usedAnodes := by
        unfold Ctx.recordBlock Ctx.error
        dsimp only
        split <;> rfl
      obtain ⟨h₁, h₂, h₃⟩ := ih (Ctx.recordBlock owner c b) hnodup.2 fun k hk => by
        by_contra hne
        rcases (isSome_lookup_recordBlock owner c b k).mp (by simpa using hne) with hold | rfl
        · rw [hnew k (List.mem_cons_of_mem b hk)] at hold
          cases hold
        · exact hnodup.1 hk
      refine ⟨h₁.trans herr, h₂.trans hanodes, fun k hk => ?_⟩
      rcases h₃ k hk with hk | hk
      · rcases (isSome_lookup_recordBlock owner c b k).mp hk with hk | rfl
        · exact Or.inl hk
        · exact Or.inr List.mem_cons_self
      · exact Or.inr (List.mem_cons_of_mem b hk)

theorem zero_not_mem_insertAnodes (chain : List Anode) : ∀ used : List ℕ, 0 ∉ used →
    (∀ a ∈ chain, a.nr ≠ 0) → 0 ∉ chain.foldl (fun used an => an.nr :: used.erase an.nr) used := by
  induction chain with
  | nil => exact fun _ h _ => h
  | cons a chain ih =>
      intro used h hne
      refine ih _ (fun hmem => ?_) fun b hb => hne b (List.mem_cons_of_mem a hb)
      rcases List.mem_cons.mp hmem with heq | hmem
      · exact hne a List.mem_cons_self heq.symm
      · exact h (List.mem_of_mem_erase hmem)

/-- The recorded blocks belong to the objects with `V`. -/
def Within (T : Owners) (V : ℕ → Prop) (c : Ctx) : Prop :=
  (∀ b, (c.usedBlocks.lookup b).isSome → ∃ q n, V q ∧ T q = some n ∧ b ∈ n.blocks) ∧
    0 ∉ c.usedAnodes

theorem Within.mono {T : Owners} {V W : ℕ → Prop} {c : Ctx} (h : Within T V c)
    (hVW : ∀ q, V q → W q) : Within T W c :=
  ⟨fun b hb => (h.1 b hb).imp fun _ ⟨n, hV, hn⟩ => ⟨n, hVW _ hV, hn⟩, h.2⟩

section Scan

variable {v : Volume} {g : Geometry} {S : Store} {T : Owners} {data : ℕ → Sector} {V : ℕ → Prop}

/-- Recording an object that was not met before. -/
theorem quiet_record (hv : VolRep v g S.disk data) (h : S.Settled T) {q : ℕ} {n : Node}
    (hq : T q = some n) (hnew : ¬ V q) (owner : Name) :
    Quiet v g (Within T V)
      (do
        note (Ctx.recordBlocks n.blocks owner)
        recordAnodeChain q)
      (Within T fun x => V x ∨ x = q) := by
  refine Quiet.seq (Q := Within T fun x => V x ∨ x = q) (Quiet.note fun c he hw hc => ?_) ?_
  · obtain ⟨herr, hanodes, hlook⟩ := recordBlocks_new owner n.blocks c (h.owned.block_nodup hq)
      fun b hb => by
        by_contra hne
        obtain ⟨q', n', hV, hq', hb'⟩ := hc.1 b (by simpa using hne)
        exact hnew (h.owned.block_inj hq hq' hb hb' ▸ hV)
    refine ⟨herr.trans he, (warnings_recordBlocks ..).trans hw, fun b hb => ?_, ?_⟩
    · rcases hlook b hb with hb | hb
      · obtain ⟨q', n', hV, hn'⟩ := hc.1 b hb
        exact ⟨q', n', Or.inl hV, hn'⟩
      · exact ⟨q, n, Or.inr rfl, hq, hb⟩
    · rw [hanodes]
      exact hc.2
  · unfold recordAnodeChain
    have hread := hv.getAnodeChain q
    rw [h.getChain hq] at hread
    refine Quiet.ask hread ?_
    rintro _ rfl
    refine Quiet.note fun c he hw hc => ⟨he, hw, hc.1, ?_⟩
    exact zero_not_mem_insertAnodes _ _ hc.2 (h.linked hq).ne_zero

/-- The path that the scan shows for a directory on level `k`. -/
def PathAt (k : ℕ) (path : Name) : Prop :=
  (k = 0 ∧ path = ['/']) ∨ (0 < k ∧ path.count '/' ≤ k)

theorem PathAt.join {k : ℕ} {path name : Name} (h : PathAt k path) (hname : '/' ∉ name) :
    PathAt (k + 1) (joinPfs3Path path name) := by
  have hcount : name.count '/' = 0 := List.count_eq_zero.mpr hname
  refine Or.inr ⟨Nat.succ_pos k, ?_⟩
  unfold joinPfs3Path
  rcases h with ⟨rfl, rfl⟩ | ⟨-, h⟩
  · have hlast : ['/'].getLast? = some '/' := rfl
    rw [if_pos hlast, List.count_append, hcount]
    decide
  · split
    · rw [List.count_append, hcount]
      omega
    · rw [List.count_append, List.count_cons_self, hcount]
      omega

theorem PathAt.count_le {k : ℕ} {path : Name} (h : PathAt k path) (hk : k < MAX_DIR_DEPTH) :
    path.count '/' ≤ MAX_DIR_DEPTH := by
  have hmax : MAX_DIR_DEPTH = 128 := rfl
  rcases h with ⟨-, rfl⟩ | ⟨-, h⟩
  · decide
  · omega

theorem scanned_iff (e : Entry) :
    (e.toDirEntry.isFile || e.toDirEntry.entryType == ST_ROLLOVERFILE) = true ↔
      e.entryType < 0 := by
  have hroll : ST_ROLLOVERFILE = -16 := rfl
  have hisFile : e.toDirEntry.isFile =
      (decide (e.entryType < 0) && e.entryType != ST_ROLLOVERFILE) := rfl
  have htype : e.toDirEntry.entryType = e.entryType := rfl
  rw [hisFile, htype, hroll, Bool.or_eq_true, Bool.and_eq_true, decide_eq_true_eq, bne_iff_ne,
    beq_iff_eq]
  omega

/-- Scanning an object that was not met before, and everything below it. -/
theorem quiet_scanEntry (hv : VolRep v g S.disk data) (h : S.Settled T) (ht : S.Tidy T)
    (scanSub : ℕ → Name → ScanM Unit) {d : ℕ} (path : Name) {e : Entry}
    (he : e ∈ entriesOf S.live T d) (hnew : ¬ V e.anode.toNat)
    (hsub : e.isDir = true → Quiet v g (Within T fun x => V x ∨ x = e.anode.toNat)
      (scanSub e.anode.toNat (joinPfs3Path path e.text))
      (Within T fun x => (V x ∨ x = e.anode.toNat) ∨
        ∃ j, Below (entriesOf S.live T) e.anode.toNat (j + 1) x)) :
    Quiet v g (Within T V) (scanEntry scanSub d path e.toDirEntry)
      (Within T fun x => V x ∨ ∃ j, Below (entriesOf S.live T) e.anode.toNat j x) := by
  obtain ⟨n, hn, hnd⟩ := h.node he
  have hread := hv.validateAnodeChain e.anode.toNat
  rw [h.getChain hn] at hread
  have hself : ∀ c, Within T (fun x => V x ∨ x = e.anode.toNat) c →
      Within T (fun x => V x ∨ ∃ j, Below (entriesOf S.live T) e.anode.toNat j x) c :=
    fun c hc => hc.mono fun x hx => by
      rcases hx with hx | rfl
      · exact Or.inl hx
      · exact Or.inr ⟨0, .self⟩
  unfold scanEntry
  have hdir : e.toDirEntry.isDir = e.isDir := rfl
  have hanode : e.toDirEntry.anode = e.anode.toNat := rfl
  dsimp only
  rw [hdir, hanode]
  split
  · rename_i hd
    refine Quiet.seq (Q := Within T V) (Quiet.note fun c he hw hc => ⟨he, hw, hc⟩) ?_
    refine Quiet.ask hread ?_
    rintro _ rfl
    have hrec := (quiet_record hv h hn hnew (joinPfs3Path path e.text)).seq (hsub hd)
    refine fun s hs herr hwarn hc => ?_
    obtain ⟨s', hrun, hs', herr', hwarn', hc'⟩ := hrec s hs herr hwarn hc
    rw [bind_assoc] at hrun
    refine ⟨s', hrun, hs', herr', hwarn', hc'.mono fun x hx => ?_⟩
    rcases hx with (hx | rfl) | ⟨j, hx⟩
    · exact Or.inl hx
    · exact Or.inr ⟨0, .self⟩
    · exact Or.inr ⟨j + 1, hx⟩
  · split
    · rename_i hfile
      have hneg := (scanned_iff e).mp hfile
      refine Quiet.seq (Q := Within T V) (Quiet.note fun c he hw hc => ⟨he, hw, hc⟩) ?_
      refine Quiet.ask hread ?_
      rintro _ rfl
      refine Quiet.seq (Q := Within T V) (Quiet.note fun c he hw hc => ?_) ?_
      · have hsize : e.fileSize ≤ n.blocks.length * SECTOR_SIZE := ht.size d e n ‹_› hneg hn
        have hsector : SECTOR_SIZE = 512 := rfl
        have hfs : e.toDirEntry.fileSize = e.fileSize := rfl
        have hblocks : AnodeReader.chainBlocks n.chain = n.blocks := rfl
        rw [hfs, hblocks, if_neg (by rw [hsector] at hsize ⊢; omega)]
        exact ⟨he, hw, hc⟩
      · have hrec := quiet_record hv h hn hnew (joinPfs3Path path e.text)
        exact fun s hs herr hwarn hc => by
          obtain ⟨s', hrun, hs', herr', hwarn', hc'⟩ := hrec s hs herr hwarn hc
          exact ⟨s', hrun, hs', herr', hwarn', hself _ hc'⟩
    · exact Quiet.pure fun c hc => hc.mono fun x hx => Or.inl hx

/-- The scan of a directory meets what lies below it, each object once. -/
theorem quiet_scanDir (hv : VolRep v g S.disk data) (h : S.Settled T) (ht : S.Tidy T)
    (hdepth : ∀ k q, Below (entriesOf S.live T) ANODE_ROOTDIR k q → kinds T q = some true →
      k < MAX_DIR_DEPTH) (n : ℕ) : ∀ {k d : ℕ} {path : Name} {V : ℕ → Prop},
    Below (entriesOf S.live T) ANODE_ROOTDIR k d → kinds T d = some true →
    MAX_DIR_DEPTH ≤ n + k → PathAt k path →
    (∀ j q, Below (entriesOf S.live T) d (j + 1) q → ¬ V q) →
    Quiet v g (Within T V) (scanDir n d path)
      (Within T fun x => V x ∨ ∃ j, Below (entriesOf S.live T) d (j + 1) x) := by
  induction n with
  | zero =>
      intro k d path V hd hk hfuel
      have hlt := hdepth k d hd hk
      omega
  | succ n ih =>
      intro k d path V hd hk hfuel hpath hV
      obtain ⟨node, hnode, hnd⟩ := Option.map_eq_some_iff.mp hk
      have hlist := hv.listDirByAnode d
      rw [h.listEntries hnode hnd (h.getChain hnode)] at hlist
      unfold scanDir
      rw [if_neg (Nat.not_lt.mpr (hpath.count_le (hdepth k d hd hk)))]
      refine Quiet.ask hlist ?_
      rintro _ hmap
      have hmap' : _ = (entriesOf S.live T d).map Entry.toDirEntry := hmap
      subst hmap'
      dsimp only
      have hloop := Quiet.forM (v := v) (g := g) (f := scanEntry (scanDir n) d path)
        (fun l => Within T fun x => V x ∨ ∃ e ∈ l, ∃ j, Below (entriesOf S.live T) e.anode.toNat j x)
        (entriesOf S.live T d) [] fun l₁ e l₂ hl => ?_
      · refine fun s hs herr hwarn hc => ?_
        obtain ⟨s', hrun, hs', herr', hwarn', hc'⟩ := hloop s hs herr hwarn
          (hc.mono fun x hx => Or.inl hx)
        refine ⟨s', hrun, hs', herr', hwarn', hc'.mono fun x hx => hx.imp_right ?_⟩
        rintro ⟨e, he, j, hj⟩
        exact ⟨j, Below.of_entry he hj⟩
      · rw [List.nil_append] at hl
        have he : e ∈ entriesOf S.live T d := by
          rw [← hl]
          exact Forest.mem_middle.mpr (Or.inl rfl)
        have hchild : Below (entriesOf S.live T) ANODE_ROOTDIR (k + 1) e.anode.toNat := .entry hd he
        -- an object below an earlier entry of the directory is not below this one
        have hapart : ∀ e' ∈ l₁, ∀ i j x, Below (entriesOf S.live T) e'.anode.toNat i x →
            Below (entriesOf S.live T) e.anode.toNat j x → False := by
          intro e' he' i j x hi hj
          have he'd : e' ∈ entriesOf S.live T d := by
            rw [← hl]
            exact List.mem_append_left _ he'
          have hchild' : Below (entriesOf S.live T) ANODE_ROOTDIR (k + 1) e'.anode.toNat :=
            .entry hd he'd
          have hij := Below.depth h.forest (hchild'.trans hi) (hchild.trans hj)
          obtain rfl : i = j := by omega
          have hanode := UInt32.toNat_inj.mp (Below.up h.forest hi hj)
          have hnodup := h.forest.nodup d
          rw [← hl, Forest.nodup_middle] at hnodup
          exact hnodup.1 e' (List.mem_append_left _ he') hanode
        have hscan := quiet_scanEntry (V := fun x => V x ∨ ∃ e ∈ l₁, ∃ j,
          Below (entriesOf S.live T) e.anode.toNat j x) hv h ht (scanDir n)
          path he (fun hx => ?_) fun hdir => ?_
        · refine fun s hs herr hwarn hc => ?_
          obtain ⟨s', hrun, hs', herr', hwarn', hc'⟩ := hscan s hs herr hwarn hc
          refine ⟨s', hrun, hs', herr', hwarn', hc'.mono fun x hx => ?_⟩
          rcases hx with (hx | ⟨e', he', hx⟩) | hx
          · exact Or.inl hx
          · exact Or.inr ⟨e', List.mem_append_left _ he', hx⟩
          · exact Or.inr ⟨e, List.mem_append_right _ (List.mem_singleton_self e), hx⟩
        · rcases hx with hx | ⟨e', he', j, hj⟩
          · exact hV 0 _ (.entry .self he) hx
          · exact hapart e' he' j 0 _ hj .self
        · refine ih hchild ?_ (by omega) (hpath.join (ht.name d e he)) fun j x hj hx => ?_
          · rw [(h.forest.entry he).1, hdir]
          · rcases hx with (hx | ⟨e', he', i, hi⟩) | rfl
            · exact hV (j + 1) x (Below.of_entry he hj) hx
            · exact hapart e' he' i (j + 1) x hi hj
            · have hjj := Below.depth h.forest hchild (hchild.trans hj)
              omega

/-! ## The whole scan -/

theorem quiet_checkBitmap (hv : VolRep v g S.disk data) (h : S.Settled T) (hgeo : S.geo = g)
    (hfree : v.rootblock.blocksfree = S.root.blocksfree) (repair : Bool) :
    Quiet v g (Within T V) (checkBitmap v.rootblock repair) (Within T V) := by
  subst hgeo
  have hread := hv.bitmapCountFree fun r hr => h.owned.sane.bound r (h.disk ▸ hr)
  rw [h.countFree, ← hfree] at hread
  have hmax : Format.MAXSMALLDISK < U32 := by decide
  have hdata := S.geo.data
  have hsmall := S.geo.small
  have hadd : addU32 v.rootblock.lastreserved 1 = .ok (v.rootblock.lastreserved + 1) := by
    rw [addU32, if_pos (by rw [hv.rb.last]; omega)]
  have hsub : subU32 v.rootblock.disksize (v.rootblock.lastreserved + 1) =
      .ok (v.rootblock.disksize - (v.rootblock.lastreserved + 1)) := by
    rw [subU32, if_pos (by rw [hv.rb.last, hv.rb.disksize]; omega)]
  unfold checkBitmap
  refine Quiet.ask hread ?_
  rintro _ rfl
  refine Quiet.checked hadd (Quiet.checked hsub (Quiet.note fun c he hw hc => ?_))
  have heq : (Except.ok v.rootblock.blocksfree : Except Error ℕ).toOption.getD 0 =
      v.rootblock.blocksfree := rfl
  rw [if_pos heq]
  exact ⟨he, hw, hc⟩

theorem quiet_checkReserved (hv : VolRep v g S.disk data) (h : S.Settled T) (hgeo : S.geo = g)
    (hroot : RootRep g v.dev S.root) (hfree : v.rootblock.reservedFree = S.root.reservedFree)
    (repair : Bool) :
    Quiet v g (Within T V) (checkReserved v.rootblock repair) (Within T V) := by
  subst hgeo
  have hread := hv.reservedCountFree hroot
  rw [h.countReserved, ← hfree] at hread
  unfold checkReserved
  refine Quiet.ask hread ?_
  rintro _ rfl
  refine Quiet.note fun c he hw hc => ?_
  rw [if_pos rfl]
  exact ⟨he, hw, hc⟩

theorem checkRootblock_eq (hv : VolRep v g S.disk data) (c : Ctx) : checkRootblock v c = c := by
  obtain ⟨x, hx, -⟩ := hv.ext
  have hdata := g.data
  unfold checkRootblock
  dsimp only
  have hlast : ¬ v.rootblock.lastreserved ≤ v.rootblock.firstreserved := by
    have hbase := g.base_add_two_le
    rw [hv.rb.last, hv.rb.first]
    omega
  have hsize : ¬ v.rootblock.disksize = 0 := by
    rw [hv.rb.disksize]
    omega
  have hext : ¬ (v.rootblock.hasExtension && v.rootblockExt.isNone) = true := by
    rw [hx, Option.isNone_some, Bool.and_false]
    exact Bool.false_ne_true
  rw [if_neg hlast, if_neg hsize, if_neg hext]

/-- A scan of a settled and tidy volume finds nothing. -/
theorem quiet_scan (hv : VolRep v g S.disk data) (h : S.Settled T) (ht : S.Tidy T)
    (hgeo : S.geo = g) (hroot : RootRep g v.dev S.root)
    (hbf : v.rootblock.blocksfree = S.root.blocksfree)
    (hrf : v.rootblock.reservedFree = S.root.reservedFree)
    (hdepth : ∀ k q, Below (entriesOf S.live T) ANODE_ROOTDIR k q → kinds T q = some true →
      k < MAX_DIR_DEPTH) {n : ℕ} (hn : MAX_DIR_DEPTH ≤ n) (repair : Bool) :
    ∃ s', scan n repair ⟨v, {}⟩ = .ok () s' ∧ s'.ctx.errors = 0 ∧ s'.ctx.warnings = 0 := by
  have hempty : Within T (fun _ => False) {} :=
    ⟨fun b hb => absurd hb Bool.false_ne_true, List.not_mem_nil⟩
  have hstart : Quiet v g (Within T fun _ => False) (note (checkRootblock v))
      (Within T fun _ => False) := Quiet.note fun c he hw hc => by
    rw [checkRootblock_eq hv]
    exact ⟨he, hw, hc⟩
  have hwalk := quiet_scanDir hv h ht hdepth n (V := fun _ => False) .self h.forest.root
    (by omega) (show PathAt 0 ['/'] from Or.inl ⟨rfl, rfl⟩) fun _ _ _ hx => hx
  have hanodes : Quiet v g (Within T fun x => False ∨ ∃ j,
      Below (entriesOf S.live T) ANODE_ROOTDIR (j + 1) x) (note checkAnodes)
      (Within T fun x => False ∨ ∃ j, Below (entriesOf S.live T) ANODE_ROOTDIR (j + 1) x) :=
    Quiet.note fun c he hw hc => by
      unfold checkAnodes
      rw [if_neg hc.2]
      exact ⟨he, hw, hc⟩
  have hall := hstart.seq (hwalk.seq ((quiet_checkBitmap hv h hgeo hbf repair).seq
    (hanodes.seq (quiet_checkReserved hv h hgeo hroot hrf repair))))
  obtain ⟨s', hrun, -, herr, hwarn, -⟩ := hall ⟨v, {}⟩ hv.refl rfl rfl hempty
  exact ⟨s', hrun, herr, hwarn⟩

end Scan

end Check

/-! ## Runs -/

/-- The directory `d` lies `k` levels below the root. -/
inductive DirAt (v : Volume) : (d k : ℕ) → Prop
  | root : DirAt v ANODE_ROOTDIR 0
  | sub {d k : ℕ} {entries : List DirEntry} {e : DirEntry} (dir : DirAt v d k)
      (list : v.answer (Volume.listDirByAnode d) = .ok entries) (mem : e ∈ entries)
      (isDir : e.isDir = true) : DirAt v e.anode (k + 1)

theorem kinds_of_mem {S : Store} {T : Owners} {p : ℕ} {e : Entry}
    (he : e ∈ entriesOf S.live T p) : kinds T p = some true := by
  unfold entriesOf at he
  split at he
  · rename_i n hn
    split at he
    · rename_i hd
      exact Option.map_eq_some_iff.mpr ⟨n, hn, hd⟩
    · cases he
  · cases he

/-- The listing of a directory on the device. -/
theorem Store.Settled.listed {v : Volume} {g : Geometry} {S : Store} {T : Owners}
    {data : ℕ → Sector} (h : S.Settled T) (hv : VolRep v g S.disk data) {p : ℕ}
    (hp : kinds T p = some true) : v.answer (Volume.listDirByAnode p) =
      .ok ((entriesOf S.live T p).map Entry.toDirEntry) := by
  obtain ⟨n, hn, hnd⟩ := Option.map_eq_some_iff.mp hp
  have hlist := hv.listDirByAnode p
  rw [h.listEntries hn hnd (h.getChain hn)] at hlist
  obtain ⟨es, hes, hmap⟩ := answer_of_reads hlist hv.refl
  obtain rfl : es = (entriesOf S.live T p).map Entry.toDirEntry := hmap
  exact hes

theorem Store.Settled.isDir_of_kinds {S : Store} {T : Owners} {p : ℕ} {e : Entry}
    (h : S.Settled T) (he : e ∈ entriesOf S.live T p)
    (hd : kinds T e.anode.toNat = some true) : e.isDir = true := by
  rw [(h.forest.entry he).1] at hd
  exact Option.some_inj.mp hd

theorem DirAt.of_below {v : Volume} {g : Geometry} {S : Store} {T : Owners} {data : ℕ → Sector}
    (hv : VolRep v g S.disk data) (h : S.Settled T) {k q : ℕ}
    (hq : Below (entriesOf S.live T) ANODE_ROOTDIR k q) (hd : kinds T q = some true) :
    DirAt v q k := by
  induction hq with
  | self => exact .root
  | entry _ he ih =>
      have hp := kinds_of_mem he
      exact .sub (ih hp) (h.listed hv hp) (List.mem_map_of_mem he) (h.isDir_of_kinds he hd)

/-- In a run from a fresh format without hard links, in which directories nest less deep than the
check walks, a check of the device finds nothing. -/
theorem check_clean {d d' : Device} {totalBlocks : ℕ} {opts : FormatOptions} {now : Datestamp}
    {res : FormatResult} {clock : ℕ → Datestamp} {v : Volume} {w : Writer}
    (hformat : Format.formatWithSize totalBlocks opts now d = .ok res d') (hsound : d.Sound)
    (htotal : totalBlocks ≤ d.total) (hsmall : totalBlocks ≤ Format.MAXSMALLDISK)
    (hv : Volume.fromDevice d' = .ok v) (hw : Writer.open v clock = .ok w) :
    ∃ g : Geometry, g.disksize = totalBlocks ∧ Rep g w (g.freshStore d'.sectors clock) ∧
      ∀ calls w', calls.forM Call.run w = .ok () w' →
        Along Call.spec (fun c S => S.Affords c ∧ KeepsTidy c) calls
          (g.freshStore d'.sectors clock) →
        ∃ v', Volume.fromDevice w'.vol.dev = .ok v' ∧
          ((∀ d k, DirAt v' d k → k < MAX_DIR_DEPTH) → ∀ n repair, MAX_DIR_DEPTH ≤ n →
            ∃ s', Check.scan n repair ⟨v', {}⟩ = .ok () s' ∧ s'.ctx.errors = 0 ∧
              s'.ctx.warnings = 0) := by
  obtain ⟨g, hsize, hrep⟩ := rep_of_format hformat hsound htotal hsmall hv hw
  refine ⟨g, hsize, hrep, fun calls w' hrun halong => ?_⟩
  obtain ⟨S, -, hS, T, hset, htidy⟩ := run_along (E := Store.anyError)
    (fun S => ∃ T, S.Settled T ∧ S.Tidy T) (fun c _ _ h => c.sim h) (by
      rintro c S ⟨T, hset, htidy⟩ ⟨haff, hkeep⟩
      refine (Store.post_call hset c haff).mono ?_ fun _ _ h => h
      rintro _ S' ⟨T', heff⟩
      exact ⟨T', heff.settled, htidy.effect hset heff hkeep⟩) calls hrep
    ⟨_, g.settled_freshStore _ _, g.tidy_freshStore _ _⟩ halong hrun
  obtain ⟨v', hv', hrep', hdev, hroot, hbf, hrf⟩ := hS.reopen
  refine ⟨v', hv', fun hdepth n repair hn => ?_⟩
  exact Check.quiet_scan hrep' hset htidy hS.geo (hdev ▸ hroot) hbf hrf
    (fun k q hq hd => hdepth q k (DirAt.of_below hrep' hset hq hd)) hn repair

/-- Whether all directories in the root directory are empty. -/
def shallow (w : Writer) : Bool :=
  match Volume.fromDevice w.vol.dev with
  | .error _ => false
  | .ok v =>
      match v.answer (Volume.listDirByAnode ANODE_ROOTDIR) with
      | .error _ => false
      | .ok es => es.all fun e => !e.isDir ||
          match v.answer (Volume.listDirByAnode e.anode) with
          | .error _ => false
          | .ok es' => es'.isEmpty

theorem of_shallow {w : Writer} {v : Volume} (h : shallow w = true)
    (hv : Volume.fromDevice w.vol.dev = .ok v) {d k : ℕ} (hd : DirAt v d k) : k ≤ 1 := by
  unfold shallow at h
  rw [hv] at h
  dsimp only at h
  split at h
  · cases h
  · rename_i es hes
    rw [List.all_eq_true] at h
    have hlevel : (k = 0 ∧ d = ANODE_ROOTDIR) ∨ (k = 1 ∧ ∃ e ∈ es, e.isDir = true ∧ d = e.anode) := by
      induction hd with
      | root => exact Or.inl ⟨rfl, rfl⟩
      | sub _ hlist he hdir ih =>
          rcases ih with ⟨rfl, rfl⟩ | ⟨-, e', he', hdir', rfl⟩
          · rw [hes] at hlist
            cases hlist
            exact Or.inr ⟨rfl, _, he, hdir, rfl⟩
          · -- a directory on the first level has no entry
            have hempty := h e' he'
            rw [hdir', hlist] at hempty
            rw [List.isEmpty_iff.mp hempty] at he
            cases he
    omega

def shallowDir : Evaluated (smallSession [.createDir ['a']]) shallow :=
  .of (by decide +kernel)

/-- A check of a small volume with a directory. -/
theorem check_clean_createDir : ∃ w v, smallSession [.createDir ['a']] = some w ∧
    Volume.fromDevice w.vol.dev = .ok v ∧ ∃ s', Check.scan 128 false ⟨v, {}⟩ = .ok () s' ∧
      s'.ctx.errors = 0 ∧ s'.ctx.warnings = 0 := by
  obtain ⟨w, hrun, hshallow⟩ := shallowDir
  obtain ⟨res, d', v, w₀, hformat, hv, hw, hcalls⟩ := of_session hrun
  obtain ⟨g, -, -, hall⟩ := check_clean hformat (sound_blankDevice 67) (le_refl 67) (by decide)
    hv hw
  obtain ⟨v', hv', hclean⟩ := hall _ w hcalls
    ⟨⟨g.affords_createDir d'.sectors _, trivial⟩, fun _ _ => trivial⟩
  have hmax : MAX_DIR_DEPTH = 128 := rfl
  refine ⟨w, v', hrun, hv', hclean (fun d k hd => ?_) 128 false le_rfl⟩
  have hle := of_shallow hshallow hv' hd
  omega

/-- A file and a hard link to it. -/
def linkingCalls : List Call := [.writeFile ['f'] [1], .createHardlink ['l'] 6]

/-- Whether a scan ends with an error. -/
def alarm : EStateM.Result WalkStop Check.Scan Unit → Bool
  | .ok _ s => s.ctx.errors != 0
  | .error _ _ => false

theorem of_alarm {r : EStateM.Result WalkStop Check.Scan Unit} (h : alarm r = true) :
    ∃ s', r = .ok () s' ∧ s'.ctx.errors ≠ 0 := by
  cases r with
  | error f s => cases h
  | ok a s => exact ⟨s, rfl, bne_iff_ne.mp h⟩

def linkedFile : Evaluated (smallSession linkingCalls) fun w =>
    match Volume.fromDevice w.vol.dev with
    | .error _ => false
    | .ok v => shallow w && alarm (Check.scan 128 false ⟨v, {}⟩) :=
  .of (by decide +kernel)

/-- A check of a small volume with a hard link reports the blocks of the file as claimed twice. -/
theorem check_hardlink : ∃ w v, smallSession linkingCalls = some w ∧
    Volume.fromDevice w.vol.dev = .ok v ∧ (∀ d k, DirAt v d k → k < MAX_DIR_DEPTH) ∧
      ∃ s', Check.scan 128 false ⟨v, {}⟩ = .ok () s' ∧ s'.ctx.errors ≠ 0 := by
  obtain ⟨w, hrun, halarm⟩ := linkedFile
  split at halarm
  · cases halarm
  · rename_i v hv
    obtain ⟨hshallow, halarm⟩ := Bool.and_eq_true_iff.mp halarm
    have hmax : MAX_DIR_DEPTH = 128 := rfl
    refine ⟨w, v, hrun, hv, fun d k hd => ?_, of_alarm halarm⟩
    have hle := of_shallow hshallow hv hd
    omega

end Pfs3
