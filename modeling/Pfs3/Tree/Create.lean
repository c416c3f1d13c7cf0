import Pfs3.Tree.Settled

/-!
# Creating objects

A call that creates an object adds the object, and one entry for it, to the tree.
-/

namespace Pfs3

open ByteList Stop

/-! ## Built entries -/

namespace Entry

theorem anode_build {now : Datestamp} {name : Name} {ty : ℤ} {anode fsize prot : ℕ} :
    (build now name ty anode fsize prot).anode = UInt32.ofNat anode := by
  rw [build]

theorem build_anode {now : Datestamp} {name : Name} {ty : ℤ} {anode fsize prot : ℕ}
    (h : anode < U32) : (build now name ty anode fsize prot).anode.toNat = anode := by
  have hu : U32 = 2 ^ 32 := rfl
  rw [hu] at h
  rw [anode_build, UInt32.toNat_ofNat', Nat.mod_eq_of_lt h]

/-- The type byte as it is read back. -/
def signed (t : UInt8) : ℤ := if t.toNat < 128 then (t.toNat : ℤ) else (t.toNat : ℤ) - 256

theorem entryType_build {now : Datestamp} {name : Name} {ty : ℤ} {anode fsize prot : ℕ} :
    (build now name ty anode fsize prot).entryType = signed (UInt8.ofNat (ty % 256).toNat) := by
  rw [build]
  rfl

theorem isDir_build {now : Datestamp} {name : Name} {ty : ℤ} {anode fsize prot : ℕ} :
    (build now name ty anode fsize prot).isDir =
      (signed (UInt8.ofNat (ty % 256).toNat) == ST_USERDIR) := by
  rw [isDir, entryType_build]

theorem signed_type (t : UInt8) : signed (UInt8.ofNat (signed t % 256).toNat) = signed t := by
  have hlt := t.toNat_lt
  unfold signed
  split
  · rename_i h
    have hmod : ((t.toNat : ℤ) % 256).toNat = t.toNat := by omega
    rw [hmod, UInt8.ofNat_toNat, if_pos h]
  · rename_i h
    have hmod : (((t.toNat : ℤ) - 256) % 256).toNat = t.toNat := by omega
    rw [hmod, UInt8.ofNat_toNat, if_neg h]

/-- An entry built with the type of another one. -/
theorem isDir_rebuild {now : Datestamp} {name : Name} {anode fsize prot : ℕ} (e : Entry) :
    (build now name e.entryType anode fsize prot).isDir = e.isDir := by
  rw [isDir_build, isDir]
  congr 1
  exact signed_type e.type

end Entry

namespace Store

variable {S S' S₁ S₂ : Store} {T T₁ T' : Owners}

/-! ## Effects on the entries -/

/-- Adding an entry to `p` changes the entries of `p` only. -/
theorem Added.entriesOf (h : Added S S' T T' held p n n' e) (hown : S.Owned T held)
    (hp : T p = some n) (hdir : n.isDir = true) :
    (∃ l₁ l₂, Store.entriesOf S.live T p = l₁ ++ l₂ ∧ Store.entriesOf S'.live T' p = l₁ ++ e :: l₂) ∧
    ∀ q, q ≠ p → Store.entriesOf S'.live T' q = Store.entriesOf S.live T q := by
  obtain ⟨l₁, l₂, h₁, h₂⟩ := h.entries
  refine ⟨⟨l₁, l₂, ?_, ?_⟩, fun q hq => ?_⟩
  · rw [entriesOf_dir hp hdir, h₁]
  · rw [entriesOf_dir h.self h.isDir, h₂]
  · refine entriesOf_congr (h.others q hq) fun x hx hd b hb => h.dirs b (hown.taken hx hb) fun hbn => ?_
    exact hq (hown.block_inj hx hp hb hbn)

/-- Replacing an entry of `p` changes the entries of `p` only. -/
theorem Edited.entriesOf (h : Edited S S' T held n name new) (hown : S.Owned T held)
    (hp : T p = some n) (hdir : n.isDir = true) :
    (∃ l₁ e l₂, Store.entriesOf S.live T p = l₁ ++ e :: l₂ ∧ matchesName name e = true ∧
      (∀ x ∈ l₁, matchesName name x = false) ∧ Store.entriesOf S'.live T p = l₁ ++ (new e ++ l₂)) ∧
    ∀ q, q ≠ p → Store.entriesOf S'.live T q = Store.entriesOf S.live T q := by
  obtain ⟨l₁, e, l₂, h₁, h₂, h₃, h₄⟩ := h.entries
  refine ⟨⟨l₁, e, l₂, ?_, h₂, h₃, ?_⟩, fun q hq => ?_⟩
  · rw [entriesOf_dir hp hdir, h₁]
  · rw [entriesOf_dir hp hdir, h₄]
  · refine entriesOf_congr rfl fun x hx hd b hb => h.dirs b fun hbn => ?_
    exact hq (hown.block_inj hx hp hb hbn)

/-- A new object without entries. -/
theorem entriesOf_new {nr : ℕ} {m : Node} (hown : S.Owned T []) (hnone : T nr = none)
    (hst : S.Stays S₁ fun _ => False) (hlist : m.isDir = true → S₁.live.listing m.blocks = []) :
    Store.entriesOf S₁.live (Function.update T nr (some m)) = Store.entriesOf S.live T := by
  funext q
  by_cases hq : q = nr
  · subst hq
    rw [entriesOf_none hnone]
    by_cases hd : m.isDir = true
    · rw [entriesOf_dir (Function.update_self _ _ _) hd, hlist hd]
    · exact entriesOf_file (Function.update_self _ _ _) (Bool.eq_false_iff.mpr hd)
  · exact entriesOf_congr (Function.update_of_ne hq _ _) fun x hx _ b hb =>
      hst.dirs b (hown.taken hx hb) fun h => h

theorem kinds_update (T : Owners) (nr : ℕ) (m : Node) :
    kinds (Function.update T nr (some m)) = Function.update (kinds T) nr (some m.isDir) := by
  funext q
  unfold kinds
  by_cases hq : q = nr
  · rw [hq, Function.update_self, Function.update_self]
    rfl
  · rw [Function.update_of_ne hq, Function.update_of_ne hq]

theorem kinds_none (T : Owners) (nr : ℕ) :
    kinds (Function.update T nr none) = Function.update (kinds T) nr none := by
  funext q
  unfold kinds
  by_cases hq : q = nr
  · rw [hq, Function.update_self, Function.update_self]
    rfl
  · rw [Function.update_of_ne hq, Function.update_of_ne hq]

/-! ## Entering an object -/

/-- Where the directory blocks of `S'` come from: they are blocks of `S` and keep their place,
they belong to the new object `nr`, if there is one, below `p`, or they are new in `p`, which had no room for an
entry of `size` bytes. -/
def Heads (S S' : Store) (T T' : Owners) (p : ℕ) (nr : Option ℕ) (size : ℕ) : Prop :=
  ∀ q n', T' q = some n' → n'.isDir = true → ∀ b ∈ n'.blocks,
    (∃ n, T q = some n ∧ n.isDir = true ∧ b ∈ n.blocks ∧ SameHead S S' b) ∨
    ∃ d, S'.live.dir b = some d ∧ d.anodenr = q ∧ d.parent = p ∧
      (nr = some q ∨ (q = p ∧ ∃ n, T p = some n ∧ ¬ S.HasSpace n.blocks size))

/-- The object `nr` with its entry `e` in the directory `p` is new; everything else is as it
was. -/
structure Entered (S S' : Store) (T T' : Owners) (p nr : ℕ) (m : Node) (e : Entry) : Prop where
  settled : S'.Settled T'
  new : T nr = none
  node : T' nr = some m
  others : ∀ q, q ≠ p → q ≠ nr → T' q = T q
  dir : kinds T p = some true
  parent : kinds T' p = some true
  anode : e.anode.toNat = nr
  isDir : e.isDir = m.isDir
  entries : ∃ l₁ l₂, entriesOf S.live T p = l₁ ++ l₂ ∧ entriesOf S'.live T' p = l₁ ++ e :: l₂
  entries_other : ∀ q, q ≠ p → entriesOf S'.live T' q = entriesOf S.live T q
  heads : Heads S S' T T' p (some nr) e.size
  geo : S'.geo = S.geo

/-- A block that stays keeps its place. -/
theorem Stays.sameHead {b : ℕ} (h : S.Stays S₁ fun _ => False) (hb : S.Taken b) : SameHead S S₁ b :=
  fun d hd => ⟨d, (h.dirs b hb fun h => h).trans hd, rfl, rfl⟩

theorem SameHead.trans {b : ℕ} (h : SameHead S S₁ b) (h' : SameHead S₁ S' b) : SameHead S S' b := by
  intro d hd
  obtain ⟨d₁, hd₁, ha, hp⟩ := h d hd
  obtain ⟨d₂, hd₂, ha', hp'⟩ := h' d₁ hd₁
  exact ⟨d₂, hd₂, ha'.trans ha, hp'.trans hp⟩

theorem Stays.hasSpace {blks : List ℕ} {size : ℕ} (h : S.Stays S₁ fun _ => False)
    (hblks : ∀ b ∈ blks, S.Taken b) (hspace : S.HasSpace blks size) : S₁.HasSpace blks size := by
  obtain ⟨b, hb, d, hd, hr⟩ := hspace
  exact ⟨b, hb, d, (h.dirs b (hblks b hb) fun h => h).trans hd, hr⟩

/-- The last part of a call that creates an object: its entry, and the commit. -/
theorem post_enter {p nr fsize prot : ℕ} {n m : Node} {name : Name} {ty : ℤ} (h : S.Settled T)
    (hp : T p = some n) (hdir : n.isDir = true) (hst : S.Stays S₁ fun _ => False)
    (hown : S₁.Owned (Function.update T nr (some m)) []) (hnone : T nr = none) (hnr : nr < U32)
    (hlist : m.isDir = true → S₁.live.listing m.blocks = [])
    (hheads : m.isDir = true → ∀ b ∈ m.blocks,
      ∃ d, S₁.live.dir b = some d ∧ d.anodenr = nr ∧ d.parent = p)
    (hty : ∀ now, (Entry.build now name ty nr fsize prot).isDir = m.isDir)
    (hroom : ∀ now, ¬ S.HasSpace n.blocks (Entry.build now name ty nr fsize prot).size →
      S₁.Room 1) :
    Post (do
      addDirEntry p name ty nr fsize prot
      updateRootblock) (fun _ S' => ∃ T' now,
      Entered S S' T T' p nr m (Entry.build now name ty nr fsize prot) ∧ S'.data = S₁.data)
      anyError S₁ := by
  have hpnr : p ≠ nr := by
    rintro rfl
    rw [hp] at hnone
    cases hnone
  have hp₁ : Function.update T nr (some m) p = some n := by rw [Function.update_of_ne hpnr, hp]
  have hdisk₁ : S₁.disk.Linked p n.chain := by
    rw [hst.disk]
    exact h.linked hp
  have htaken : ∀ b ∈ n.blocks, S.Taken b := fun b hb => h.owned.taken hp hb
  refine (post_addDirEntry hown hp₁ hdir hdisk₁ name ty nr fsize prot fun now hno =>
    hroom now fun hs => hno (hst.hasSpace htaken hs)).seq ?_
  rintro _ S₂ ⟨now, T', n', hadd⟩
  refine post_updateRootblock.mono ?_ fun _ _ h => h
  rintro _ S₃ hc
  have hanode : (Entry.build now name ty nr fsize prot).anode.toNat = nr := Entry.build_anode hnr
  obtain ⟨⟨l₁, l₂, hl₁, hl₂⟩, hother⟩ := hadd.entriesOf hown hp₁ hdir
  rw [entriesOf_new h.owned hnone hst hlist] at hl₁ hother
  have hkinds : kinds T' = Function.update (kinds T) nr (some (Entry.build now name ty nr fsize prot).isDir) := by
    rw [hty, ← kinds_update]
    funext q
    unfold kinds
    by_cases hq : q = p
    · rw [hq, hadd.self, hp₁]
      exact congrArg some (hadd.isDir.trans hdir.symm)
    · rw [hadd.others q hq]
  have hnewK : kinds T nr = none := by
    rw [kinds, hnone]
    rfl
  have hforest := h.forest.add hanode hnewK hl₁ hl₂ hother
  rw [← hkinds] at hforest
  have hkindp : kinds T p = some true := by
    rw [kinds, hp]
    exact congrArg some hdir
  refine ⟨T', now, ⟨hc.settled hadd.owned hforest, hnone, ?_, fun q hq hqn => ?_, hkindp, ?_, hanode,
    hty now, ⟨l₁, l₂, hl₁, by rw [hc.live]; exact hl₂⟩, fun q hq => by rw [hc.live]; exact hother q hq,
    ?_, hc.geo.trans (hadd.geo.trans hst.geo)⟩, hc.data.trans hadd.data⟩
  · rw [hadd.others nr hpnr.symm, Function.update_self]
  · rw [hadd.others q hq, Function.update_of_ne hqn]
  · rw [kinds, hadd.self]
    exact congrArg some hadd.isDir
  · intro q n₀ hq hd b hb
    have hdirs : ∀ c, S₁.Taken c → c ∉ n.blocks → S₃.live.dir c = S₁.live.dir c := fun c hc' hcn => by
      rw [hc.live]
      exact hadd.dirs c hc' hcn
    have hcommit : SameHead S₂ S₃ b := fun d hd => ⟨d, by rw [hc.live]; exact hd, rfl, rfl⟩
    by_cases hqp : q = p
    · subst hqp
      rw [hadd.self] at hq
      cases hq
      rcases hadd.heads b hb with ⟨hbn, hsame⟩ | ⟨hno, d, hd', ha, hpar⟩
      · exact Or.inl ⟨n, hp, hdir, hbn, ((hst.sameHead (htaken b hbn)).trans hsame).trans hcommit⟩
      · exact Or.inr ⟨d, by rw [hc.live]; exact hd', ha, hpar, Or.inr ⟨rfl, n, hp, fun hs =>
          hno (hst.hasSpace htaken hs)⟩⟩
    · have hq₁ : Function.update T nr (some m) q = some n₀ := by rw [← hadd.others q hqp, hq]
      have hbn : b ∉ n.blocks := fun hbn => hqp (hown.block_inj hq₁ hp₁ hb hbn)
      have hsame := hdirs b (hown.taken hq₁ hb) hbn
      by_cases hqn : q = nr
      · subst hqn
        rw [Function.update_self] at hq₁
        cases hq₁
        obtain ⟨d, hd', ha, hpar⟩ := hheads hd b hb
        exact Or.inr ⟨d, hsame.trans hd', ha, hpar, Or.inl rfl⟩
      · rw [Function.update_of_ne hqn] at hq₁
        exact Or.inl ⟨n₀, hq₁, hd, hb, (hst.sameHead (h.owned.taken hq₁ hb)).trans fun d hd' =>
          ⟨d, hsame.trans hd', rfl, rfl⟩⟩

/-! ## The calls -/

/-- The anodes that `data` needs when it is stored. -/
def dataAnodes (S : Store) (data : Bytes) : ℕ := S.anodesFor (Writer.blocksFor data.length % U32)

/-- A stored object. -/
structure StoredAs (S S' : Store) (m : Node) (data : Bytes) : Prop where
  isDir : m.isDir = false
  length : m.blocks.length = Writer.blocksFor data.length % U32
  data : S'.data = putSectors S.data m.blocks data

/-- Storing data and entering it as a file or a soft link. -/
theorem post_enterData {p : ℕ} {n : Node} {name : Name} {ty : ℤ} {data : Bytes} {k : ℕ}
    (h : S.Settled T) (hp : T p = some n) (hdir : n.isDir = true)
    (hty : ∀ now nr, (Entry.build now name ty nr data.length 0).isDir = false)
    (hroom : S.Room (S.dataAnodes data + k))
    (hk : ∀ now nr, ¬ S.HasSpace n.blocks (Entry.build now name ty nr data.length 0).size → k = 1) :
    Post (storeData data >>= fun anodenr => do
      addDirEntry p name ty anodenr data.length 0
      updateRootblock) (fun _ S' => ∃ T' nr m now,
      Entered S S' T T' p nr m (Entry.build now name ty nr data.length 0) ∧ StoredAs S S' m data)
      anyError S := by
  refine (post_storeData h.owned data hroom).seq ?_
  rintro nr S₁ ⟨chain, hown, hnone, -, hnr, hroom₁, hst, hlen, hdata⟩
  refine (post_enter (m := ⟨false, chain⟩) h hp hdir (hst _) hown hnone hnr (fun hd => by cases hd)
    (fun hd => by cases hd) (fun now => hty now nr) fun now hno => hk now nr hno ▸ hroom₁).mono ?_
    fun _ _ h => h
  rintro _ S' ⟨T', now, hent, hd⟩
  exact ⟨T', nr, _, now, hent, rfl, hlen, hd.trans hdata⟩

/-- Creating a file. -/
theorem post_createFile {p : ℕ} {n : Node} {name : Name} {data : Bytes} {k : ℕ}
    (h : S.Settled T) (hp : T p = some n) (hdir : n.isDir = true)
    (hroom : S.Room (S.dataAnodes data + k))
    (hk : ∀ now nr, ¬ S.HasSpace n.blocks (Entry.build now name ST_FILE nr data.length 0).size →
      k = 1) :
    Post (do
      writeFileInNoCommit p name data
      updateRootblock) (fun _ S' => ∃ T' nr m now,
      Entered S S' T T' p nr m (Entry.build now name ST_FILE nr data.length 0) ∧
      StoredAs S S' m data) anyError S := by
  refine Post.assoc (post_enterData h hp hdir (fun now nr => ?_) hroom hk)
  rw [Entry.isDir_build]
  decide

/-- Creating a soft link. -/
theorem post_createSoftlinkIn {p : ℕ} {n : Node} {name target : Name} {k : ℕ}
    (h : S.Settled T) (hp : T p = some n) (hdir : n.isDir = true)
    (hroom : S.Room (S.dataAnodes (asBytes target) + k))
    (hk : ∀ now nr, ¬ S.HasSpace n.blocks
      (Entry.build now name ST_SOFTLINK nr (asBytes target).length 0).size → k = 1) :
    Post (createSoftlinkIn p name target) (fun _ S' => ∃ T' nr m now,
      Entered S S' T T' p nr m (Entry.build now name ST_SOFTLINK nr (asBytes target).length 0) ∧
      StoredAs S S' m (asBytes target)) anyError S := by
  refine post_enterData h hp hdir (fun now nr => ?_) hroom hk
  rw [Entry.isDir_build]
  decide

/-- Creating a directory. -/
theorem post_createDirIn {p : ℕ} {n : Node} {name : Name} {k : ℕ} (h : S.Settled T)
    (hp : T p = some n) (hdir : n.isDir = true) (hroom : S.Room (1 + k))
    (hk : ∀ now nr, ¬ S.HasSpace n.blocks (Entry.build now name ST_USERDIR nr 0 0).size → k = 1) :
    Post (createDirIn p name) (fun _ S' => ∃ T' nr m now,
      Entered S S' T T' p nr m (Entry.build now name ST_USERDIR nr 0 0) ∧ m.isDir = true ∧
      S'.data = S.data) anyError S := by
  unfold createDirIn
  refine post_allocReservedBlock.seq ?_
  rintro _ _ ⟨j, rfl, hj, rfl⟩
  obtain ⟨htaken, husable⟩ := taken_takeReserved h.owned.sane hj
  have hfree := not_taken_of_free h.owned.sane hj
  have hst₁ := stays_takeReserved (S := S) j fun _ => False
  have hown₁ := h.owned.hold hst₁ (h.owned.sane.takeReserved hj) (List.nodup_singleton _)
    fun b hb => by
      rcases List.mem_singleton.mp hb with rfl
      exact ⟨htaken, hfree⟩
  generalize hblk : Geometry.blockAt j = blk at *
  have hblk_lt : blk < S.geo.dataStart := Taken.lt husable.1
  have hu : U32 = 4294967296 := rfl
  have hsize := S.geo.disksize_lt
  have hstart := S.geo.dataStart_lt
  have hroom₁ : (takeReserved j S).Room (k + 1) := by
    rw [Nat.add_comm]
    exact hroom.congr rfl rfl rfl
  refine (post_allocAnode hown₁.sane (not_isFree_ofNat (by omega) (by omega)) hroom₁).seq ?_
  rintro nr S₂ ⟨hnew, hsane₂, hroom₂, hst₂⟩
  have hfirst : ANODE_USERFIRST = 6 := rfl
  have hpos := hnew.pos
  have hget := hnew.get
  rw [anode_ofNat (by omega) (by omega) (by omega)] at hget
  have hnr : nr < U32 := hsane₂.anode_lt hget
  have hnone := hown₁.none_of_unused hnew.unused (by omega)
  have hown₂ := hown₁.stays (hst₂ fun _ => False) hsane₂
  have hgeo₂ : S₂.geo = S.geo := (hst₂ fun _ => False).geo
  refine post_tick.seq ?_
  rintro _ _ rfl
  have husable₂ : (tick S₂).Usable blk :=
    (hown₂.held_taken blk List.mem_cons_self).usable (hgeo₂ ▸ hblk_lt)
  refine (post_writeDir husable₂ _).seq ?_
  rintro _ _ rfl
  have hst₃ : S₂.Stays (setDir blk (some ⟨nr, p, []⟩) (tick S₂)) (· = blk) :=
    (stays_tick _ _).trans (stays_setDir blk _)
  have hown₃ := hown₂.stays hst₃ (hown₂.sane.tick.setDir _ _)
  have hdir₃ : (setDir blk (some ⟨nr, p, []⟩) (tick S₂)).live.dir blk = some ⟨nr, p, []⟩ :=
    dir_setDir _ _ _
  have hroom₃ : (setDir blk (some ⟨nr, p, []⟩) (tick S₂)).Room k := hroom₂.congr rfl rfl rfl
  have hdata₃ : (setDir blk (some ⟨nr, p, []⟩) (tick S₂)).data = S.data := hnew.data
  have hget₃ : (setDir blk (some ⟨nr, p, []⟩) (tick S₂)).live.getAnode nr = .ok ⟨1, blk, 0, nr⟩ :=
    hget
  -- nothing but the new block changed
  have hst : S.Stays (setDir blk (some ⟨nr, p, []⟩) (tick S₂)) fun _ => False := by
    have hne : ∀ c, S.Taken c → c ≠ blk := by
      rintro c hc rfl
      exact hfree hc
    have hdirs : ∀ c, S.Taken c →
        (setDir blk (some ⟨nr, p, []⟩) (tick S₂)).live.dir c = S.live.dir c := fun c hc =>
      (dir_setDir_ne (hne c hc)).trans
        ((hst₂ fun _ => False).dirs c (hst₁.taken c hc) fun h => h)
    refine ⟨hgeo₂, (hst₂ fun _ => False).disk, fun c hc => ?_, fun c hc hd => ?_,
      fun c hc _ => hdirs c hc, fun a an ha hc => ?_⟩
    · exact hst₃.taken c ((hst₂ fun _ => False).taken c (hst₁.taken c hc))
    · rw [hdirs c hc]
      exact hd
    · exact hst₃.anode a an ((hst₂ fun _ => False).anode a an (hst₁.anode a an ha hc) hc) hc
  have hgeo₃ := hst.geo
  generalize setDir blk (some ⟨nr, p, []⟩) (tick S₂) = S₃ at *
  have hown₄ := @Owned.add _ _ _ _ hown₃ nr ⟨true, [⟨1, blk, 0, nr⟩]⟩ (by omega)
    ⟨by show nr ≠ 0; omega, hget₃, rfl⟩
    (fun a ha => by rcases List.mem_singleton.mp ha with rfl; exact Nat.one_ne_zero)
    (fun a ha _ _ _ hk hc => by
      rcases List.mem_singleton.mp ha with rfl
      exact hown₁.unowned hk hc hnew.unused)
    (List.nodup_singleton _) rfl
    (fun b hb => by
      rcases List.mem_singleton.mp hb with rfl
      rw [hgeo₃]
      exact ⟨fun _ => hblk_lt, fun _ => rfl⟩)
    fun _ b hb => by
      rcases List.mem_singleton.mp hb with rfl
      rw [hdir₃]
      rfl
  refine (post_enter (m := ⟨true, [⟨1, blk, 0, nr⟩]⟩) h hp hdir hst hown₄ hnone hnr (fun _ => ?_)
    (fun _ b hb => ?_) (fun now => ?_) fun now hno => hk now nr hno ▸ hroom₃).mono ?_ fun _ _ h => h
  · show S₃.live.listing [blk] = []
    rw [Meta.listing_single, Meta.entriesAt, hdir₃]
    rfl
  · rcases List.mem_singleton.mp hb with rfl
    exact ⟨_, hdir₃, rfl, rfl⟩
  · rw [Entry.isDir_build]
    show _ = true
    decide
  · rintro _ S' ⟨T', now, hent, hd⟩
    exact ⟨T', nr, _, now, hent, rfl, hd.trans hdata₃⟩

end Store

end Pfs3
