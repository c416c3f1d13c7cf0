import Pfs3.Tree.Kept

/-!
# Reading back what was written

`write_file` stores the bytes of a name, cut to 107, and a reader takes them for Latin-1; it does
not ask whether an object of another type has the name, and finds its parent directory in another
way than a reader does.  Where none of this makes a difference, a reader gets what was written.
-/

namespace Pfs3

open ByteList Stop Store

namespace Store

/-! ## Paths -/

/-- A reader gets from the directory `p` by way of `parts` to the directory `q`. -/
inductive Leads (L : ℕ → List Entry) : ℕ → List Name → ℕ → Prop
  | here {p : ℕ} : Leads L p [] p
  | down {p q : ℕ} {part : Name} {parts : List Name} {e : Entry}
      (found : (L p).find? (matchesName part) = some e) (isDir : e.isDir = true)
      (leads : Leads L e.anode.toNat parts q) : Leads L p (part :: parts) q

section Leads

variable {K : ℕ → Option Bool} {L L' : ℕ → List Entry} {p q a k : ℕ} {parts : List Name}

theorem Leads.level (h : Leads L p parts q) :
    ∀ {k}, Below L a k p → Below L a (k + parts.length) q := by
  induction h with
  | here => exact fun hp => hp
  | down found _ _ ih =>
      intro k hp
      have hq := ih (.entry hp (List.mem_of_find?_eq_some found))
      rw [List.length_cons, Nat.add_comm _ 1, ← Nat.add_assoc]
      exact hq

/-- The way to a directory does not pass through it. -/
theorem Leads.kept (hF : Forest K L) (h : Leads L p parts q) (heq : ∀ x, x ≠ q → L' x = L x) :
    ∀ {k}, Below L ANODE_ROOTDIR k p → Leads L' p parts q := by
  induction h with
  | here => exact fun _ => .here
  | @down p q part parts e found isDir leads ih =>
      intro k hp
      have hsub := hp.entry (List.mem_of_find?_eq_some found)
      have hne : p ≠ q := by
        rintro rfl
        have hdepth := Below.depth hF hp (leads.level hsub)
        omega
      exact .down ((heq p hne).symm ▸ found) isDir (ih heq hsub)

end Leads

variable {S S' : Store} {T T' : Owners} {p q : ℕ} {parts : List Name} {name path : Name}
  {e : Entry}

theorem Settled.lookup (h : S.Settled T) (hp : kinds T p = some true) (name : Name) :
    S.disk.lookup p name =
      match (entriesOf S.live T p).find? (matchesName name) with
      | some e => pure e
      | none => Reader.fail (.notFound (String.ofList name)) := by
  obtain ⟨n, hn, hd⟩ := Option.map_eq_some_iff.mp hp
  unfold Meta.lookup
  rw [h.listEntries hn hd (h.getChain hn), ok_bind]
  rfl

theorem Settled.kinds_find (h : S.Settled T)
    (he : (entriesOf S.live T p).find? (matchesName name) = some e) (hdir : e.isDir = true) :
    kinds T e.anode.toNat = some true :=
  (h.forest.entry (List.mem_of_find?_eq_some he)).1.trans (congrArg some hdir)

theorem Settled.leads (h : S.Settled T) (parts : List Name) :
    ∀ {p}, kinds T p = some true → S.disk.resolveDirParts p parts = .ok q →
      Leads (entriesOf S.live T) p parts q := by
  induction parts with
  | nil =>
      intro p _ hres
      cases hres
      exact .here
  | cons part parts ih =>
      intro p hp hres
      unfold Meta.resolveDirParts at hres
      rw [h.lookup hp part] at hres
      cases hf : (entriesOf S.live T p).find? (matchesName part) with
      | none =>
          rw [hf] at hres
          cases hres
      | some e =>
          rw [hf] at hres
          change (if e.isDir then S.disk.resolveDirParts e.anode.toNat parts
            else Reader.fail .notADirectory) = .ok q at hres
          split at hres
          · rename_i hdir
            exact .down hf hdir (ih (h.kinds_find hf hdir) hres)
          · cases hres

theorem Settled.resolveDirParts (h : S.Settled T) (hl : Leads (entriesOf S.live T) p parts q)
    (hp : kinds T p = some true) : S.disk.resolveDirParts p parts = .ok q := by
  induction hl with
  | here => rfl
  | @down p q part parts e found isDir _ ih =>
      unfold Meta.resolveDirParts
      rw [h.lookup hp part, found]
      show (if e.isDir then S.disk.resolveDirParts e.anode.toNat parts
        else Reader.fail .notADirectory) = .ok q
      rw [if_pos isDir]
      exact ih (h.kinds_find found isDir)

/-- A reader finds the entry that is found in the directory at the end of the path. -/
theorem Settled.resolveParts (h : S.Settled T) (hl : Leads (entriesOf S.live T) p parts q)
    (hp : kinds T p = some true)
    (he : (entriesOf S.live T q).find? (matchesName name) = some e) :
    S.disk.resolveParts p (parts ++ [name]) = .ok (some e) := by
  induction hl with
  | here =>
      show S.disk.lookupLast _ name = _
      unfold Meta.lookupLast
      rw [h.lookup hp name, he]
      rfl
  | @down p q part parts d found isDir _ ih =>
      obtain ⟨next, rest, hrest⟩ : ∃ next rest, parts ++ [name] = next :: rest :=
        List.exists_cons_of_ne_nil (List.append_ne_nil_of_right_ne_nil _ (List.cons_ne_nil _ _))
      have hsub := ih (h.kinds_find found isDir) he
      rw [List.cons_append, hrest] at *
      unfold Meta.resolveParts
      rw [h.lookup hp part, found]
      show (if d.isDir then S.disk.resolveParts d.anode.toNat (next :: rest)
        else Reader.fail .notADirectory) = _
      rw [if_pos isDir]
      exact hsub

/-- Where the reader gets, `split_path` gets too. -/
theorem Settled.descend (h : S.Settled T) (hl : Leads (entriesOf S.live T) p parts q)
    (hp : kinds T p = some true) : descend p parts S = .ok q S := by
  induction hl with
  | here => rfl
  | @down p q part parts e found isDir _ ih =>
      obtain ⟨n, hn, hd⟩ := Option.map_eq_some_iff.mp hp
      have hboth : (entriesOf S.live T p).find? (fun e => nameEqCi e.text part && e.isDir) =
          some e := by
        obtain ⟨hmatch, l₁, l₂, hsplit, hbefore⟩ := List.find?_eq_some_iff_append.mp found
        refine List.find?_eq_some_iff_append.mpr ⟨?_, l₁, l₂, hsplit, fun x hx => ?_⟩
        · rw [Bool.and_eq_true]
          exact ⟨hmatch, isDir⟩
        · have hno : nameEqCi x.text part = false := by
            simpa [matchesName] using hbefore x hx
          rw [hno]
          rfl
      unfold Store.descend
      rw [bind_of_ok (h.listDir_run hn hd), hboth]
      exact ih (h.kinds_find found isDir)

theorem pathParts_of_splitPath (h : splitPath path S = .ok (p, name) S') :
    pathParts path = (pathParts path).dropLast ++ [name] := by
  unfold splitPath at h
  cases hlast : (pathParts path).getLast? with
  | none =>
      simp only [hlast] at h
      cases h
  | some filename =>
      simp only [hlast] at h
      obtain ⟨q, S₁, -, hrun⟩ := of_bind_eq_ok h
      cases hrun
      exact (List.dropLast_append_getLast? name hlast).symm

theorem Settled.splitPath (h : S.Settled T) (hparts : pathParts path = parts ++ [name])
    (hl : Leads (entriesOf S.live T) ANODE_ROOTDIR parts p) :
    splitPath path S = .ok (p, name) S := by
  have hlast : (pathParts path).getLast? = some name := by
    rw [hparts, List.getLast?_concat]
  unfold Store.splitPath
  rw [hlast, hparts, List.dropLast_concat]
  show (Store.descend ANODE_ROOTDIR parts >>= fun parent => pure (parent, name)) S = _
  rw [bind_of_ok (h.descend hl h.forest.root)]
  rfl

/-! ## What the condition says -/

/-- A reader gets to the directory `p` that `write_file` puts the file in, the name reads back as
the one given, and an object that has it is a file. -/
structure Addresses (S : Store) (path : Name) (p : ℕ) (name : Name) : Prop where
  split : Store.splitPath path S = .ok (p, name) S
  parent : S.disk.resolveDirParts ANODE_ROOTDIR (pathParts path).dropLast = .ok p
  readable : nameEqCi (storedName name) name = true
  plain : ∀ e, S.found p name = some e → e.IsPlain

/-- The number of blocks of `data` is a u32, and the entry has a field for the upper half of its
length if it needs one. -/
structure Sizes (S : Store) (p : ℕ) (name : Name) (data : Bytes) : Prop where
  blocks : Writer.blocksFor data.length < U32
  entry : ∀ e, S.found p name = some e → data.length < U32 ∨ e.fsizex.isSome = true

/-! ## What a write leaves -/

variable {data : Bytes}

theorem lt_of_blocks (h : Writer.blocksFor data.length < U32) : data.length < 2 ^ 48 := by
  have hle := Writer.le_blocksFor data.length
  have hu : U32 = 2 ^ 32 := rfl
  have hs : SECTOR_SIZE = 512 := rfl
  rw [hs] at hle
  omega

theorem plain_build (now : Datestamp) (name : Name) (anode fsize prot : ℕ) :
    (Entry.build now name ST_FILE anode fsize prot).IsPlain := by
  left
  rw [Entry.entryType_build]
  decide

/-- The first entry with the name in a list, of which each anode occurs once. -/
theorem find_middle {l₁ l₂ : List Entry} {f : Entry → Bool} {e' : Entry}
    (hnodup : ((l₁ ++ e :: l₂).map Entry.anode).Nodup) (he : (l₁ ++ e :: l₂).find? f = some e)
    (he' : f e' = true) : (l₁ ++ e' :: l₂).find? f = some e' := by
  have hbefore : l₁.find? f = none := by
    cases hl : l₁.find? f with
    | none => rfl
    | some x =>
        rw [List.find?_append, hl, Option.some_or] at he
        cases he
        have hmem := List.mem_of_find?_eq_some hl
        exact absurd rfl ((Forest.nodup_middle.mp hnodup).1 e (List.mem_append_left _ hmem))
  rw [List.find?_append, hbefore, Option.none_or, List.find?_cons, he']

/-- The file that a write leaves in the directory `p` under the name. -/
structure Written (S S' : Store) (T T' : Owners) (p : ℕ) (name : Name) (data : Bytes)
    (e : Entry) : Prop where
  settled : S'.Settled T'
  found : (entriesOf S'.live T' p).find? (matchesName name) = some e
  plain : e.IsPlain
  contents : contentsOf S' T' e = data
  others : ∀ q, q ≠ p → entriesOf S'.live T' q = entriesOf S.live T q
  geo : S'.geo = S.geo

/-- The directory that `write_file` writes to is the addressed one. -/
theorem Addresses.split_eq (ha : S.Addresses path p name) {q : ℕ} {name' : Name}
    (h : Store.splitPath path S = .ok (q, name') S) : q = p ∧ name' = name := by
  rw [ha.split] at h
  cases h
  exact ⟨rfl, rfl⟩

theorem Settled.leads_of (h : S.Settled T) (ha : S.Addresses path p name) :
    Leads (entriesOf S.live T) ANODE_ROOTDIR (pathParts path).dropLast p :=
  h.leads _ h.forest.root ha.parent

theorem Effect.written (heff : Effect S S' T T' (.writeFile path data)) (h : S.Settled T)
    (ha : S.Addresses path p name) (hs : S.Sizes p name data) :
    ∃ e, Written S S' T T' p name data e := by
  have hlt := lt_of_blocks hs.blocks
  cases heff with
  | @wrote _ _ q nr name' m now split fresh enter stored =>
      obtain ⟨rfl, rfl⟩ := ha.split_eq split
      obtain ⟨n, hn, hd⟩ := Option.map_eq_some_iff.mp enter.dir
      have hnone : (entriesOf S.live T q).find? (matchesName name') = none := by
        rw [← h.found_eq hn hd, Option.eq_none_iff_forall_ne_some]
        exact fun e he => fresh e he (ha.plain e he)
      obtain ⟨l₁, l₂, hold, hnew⟩ := enter.entries
      rw [hold, List.find?_append, Option.or_eq_none_iff] at hnone
      have hmatch : matchesName name' (Entry.build now name' ST_FILE nr data.length 0) = true := by
        unfold matchesName
        rw [text_build]
        exact ha.readable
      refine ⟨Entry.build now name' ST_FILE nr data.length 0, enter.settled, ?_, plain_build .., ?_,
        enter.entries_other, enter.geo⟩
      · rw [hnew, List.find?_append, hnone.1, Option.none_or, List.find?_cons, hmatch]
      · have hnode := enter.anode.symm ▸ enter.node
        rw [contentsOf_some hnode, Entry.fileSize_build_whole hlt]
        exact enter.settled.owned.data_self hnode stored.data stored.length hs.blocks
  | @rewrote _ _ q name' e m now split old plain rewritten owners =>
      obtain ⟨rfl, rfl⟩ := ha.split_eq split
      subst owners
      obtain ⟨l₁, l₂, hold, hnew⟩ := rewritten.entries
      have hdir : kinds T q = some true := kinds_of_mem (e := e) (by
        rw [hold]
        exact List.mem_append_right _ List.mem_cons_self)
      obtain ⟨n, hn, hd⟩ := Option.map_eq_some_iff.mp hdir
      have hfind := (h.found_eq hn hd name').symm.trans old
      have hnodup := h.forest.nodup q
      rw [hold] at hfind hnodup
      have hsize : (e.setSize data.length now).fileSize = data.length := by
        rcases hs.entry e old with hsmall | hx
        · exact Entry.fileSize_setSize e now hsmall
        · exact Entry.fileSize_setSize_wide now hlt hx
      refine ⟨e.setSize data.length now, rewritten.settled, ?_, plain,
        rewritten.contents hs.blocks hsize, rewritten.entries_other, rewritten.geo⟩
      have hmatch : matchesName name' e = true := List.find?_some hfind
      rw [hnew]
      exact find_middle hnodup hfind hmatch

/-- What a reader of the device gets at the path. -/
theorem Written.readFile {v : Volume} (hw : Written S S' T T' p name data e) (h : S.Settled T)
    (ha : S.Addresses path p name) (hv : VolRep v S'.geo S'.disk S'.data) :
    v.answer (Volume.readFile path) = .ok data := by
  have hleads := (h.leads_of ha).kept h.forest hw.others .self
  have hroot := hw.settled.forest.root
  obtain ⟨n, hn, hkind⟩ := hw.settled.node (List.mem_of_find?_eq_some hw.found)
  have hfile : e.isDir = false := hw.plain.isDir
  have hread : S'.disk.readFile S'.geo S'.data path = .ok data := by
    unfold Meta.readFile Meta.lookupPath
    rw [pathParts_of_splitPath ha.split, hw.settled.resolveParts hleads hroot hw.found, ok_bind]
    dsimp only
    rw [if_neg (by rw [hfile]; decide), hw.settled.readFileData hn (hkind.trans hfile),
      ← contentsOf_some hn, hw.contents]
  have hreads := hv.readFile path
  rw [hread] at hreads
  obtain ⟨_, hanswer, rfl⟩ := answer_of_reads hreads hv.refl
  exact hanswer

/-- A second write to the path goes to the file that the first one left. -/
theorem Written.addresses {S₁ S₂ : Store} {T₁ T₂ : Owners} (hw : Written S₁ S₂ T₁ T₂ p name data e)
    (h : S₁.Settled T₁) (ha : S₁.Addresses path p name) : S₂.Addresses path p name := by
  have hleads := (h.leads_of ha).kept h.forest hw.others .self
  have hroot := hw.settled.forest.root
  refine ⟨hw.settled.splitPath (pathParts_of_splitPath ha.split) hleads,
    hw.settled.resolveDirParts hleads hroot, ha.readable, fun x hx => ?_⟩
  have hdir := kinds_of_mem (List.mem_of_find?_eq_some hw.found)
  obtain ⟨n, hn, hd⟩ := Option.map_eq_some_iff.mp hdir
  rw [hw.settled.found_eq hn hd, hw.found] at hx
  cases hx
  exact hw.plain

/-- A file that is there is written anew, and its entry stays where it is. -/
theorem Effect.replaced (heff : Effect S S' T T' (.writeFile path data))
    (ha : S.Addresses path p name) (he : S.found p name = some e) :
    ∃ l₁ l₂ now, entriesOf S.live T p = l₁ ++ e :: l₂ ∧
      entriesOf S'.live T' p = l₁ ++ e.setSize data.length now :: l₂ := by
  cases heff with
  | wrote split fresh =>
      obtain ⟨rfl, rfl⟩ := ha.split_eq split
      exact absurd (ha.plain e he) (fresh e he)
  | rewrote split old _ rewritten owners =>
      obtain ⟨rfl, rfl⟩ := ha.split_eq split
      rw [he] at old
      cases old
      subst owners
      obtain ⟨l₁, l₂, hold, hnew⟩ := rewritten.entries
      exact ⟨l₁, l₂, _, hold, hnew⟩

theorem Settled.answer_listDir {v : Volume} {g : Geometry} {data : ℕ → Sector} (h : S.Settled T)
    (hv : VolRep v g S.disk data)
    (hl : Leads (entriesOf S.live T) ANODE_ROOTDIR (pathParts path) p)
    (hp : kinds T p = some true) :
    v.answer (Volume.listDir path) = .ok ((entriesOf S.live T p).map Entry.toDirEntry) := by
  obtain ⟨n, hn, hd⟩ := Option.map_eq_some_iff.mp hp
  have hreads := hv.listDir path
  unfold Meta.listDir Meta.resolveDirPath at hreads
  rw [h.resolveDirParts hl h.forest.root, ok_bind, h.listEntries hn hd (h.getChain hn)] at hreads
  obtain ⟨_, hanswer, rfl⟩ := answer_of_reads hreads hv.refl
  exact hanswer

end Store

/-! ## Runs -/

/-- In the directory that holds `path`, one entry has changed: the object, its name and its type
are the same. -/
def Replaced (v v' : Volume) (path : Name) : Prop :=
  ∀ parent, pathParts parent = (pathParts path).dropLast → ∃ l₁ l₂ x x',
    v.answer (Volume.listDir parent) = .ok (l₁ ++ x :: l₂) ∧
    v'.answer (Volume.listDir parent) = .ok (l₁ ++ x' :: l₂) ∧
    x'.name = x.name ∧ x'.entryType = x.entryType ∧ x'.anode = x.anode

/-- One write. -/
theorem Rep.writeFile_written {g : Geometry} {w w' : Writer} {S : Store} {T : Owners}
    {path name : Name} {p : ℕ} {data : Bytes} (hw : Rep g w S) (h : S.Settled T)
    (hrun : Writer.writeFile path data w = .ok () w') (haff : S.Affords (.writeFile path data))
    (ha : S.Addresses path p name) (hs : S.Sizes p name data) :
    ∃ S' T' e v', Store.writeFile path data S = .ok () S' ∧ Rep g w' S' ∧
      Effect S S' T T' (.writeFile path data) ∧ Written S S' T T' p name data e ∧
      Volume.fromDevice w'.vol.dev = .ok v' ∧ v'.answer (Volume.readFile path) = .ok data := by
  obtain ⟨S', hspec, hw', T', heff⟩ :=
    ((Call.writeFile path data).sim hw).follow (post_call h _ haff) hrun
  obtain ⟨e, hwritten⟩ := heff.written h ha hs
  obtain ⟨v', hv', -⟩ := hw'.reopen
  have hrep := hw'.volRep hv'
  rw [← hw'.geo] at hrep
  exact ⟨S', T', e, v', hspec, hw', heff, hwritten, hv', hwritten.readFile h ha hrep⟩

/-- A further write to the path. -/
theorem Rep.writeFile_replaced {g : Geometry} {w w' : Writer} {S₁ S : Store} {T₁ T : Owners}
    {path name : Name} {p : ℕ} {data data₂ : Bytes} {e : Entry} {v : Volume} (hw : Rep g w S)
    (h₁ : S₁.Settled T₁) (ha : S₁.Addresses path p name) (hwr : Written S₁ S T₁ T p name data e)
    (hv : Volume.fromDevice w.vol.dev = .ok v)
    (hrun : Writer.writeFile path data₂ w = .ok () w') (haff : S.Affords (.writeFile path data₂))
    (hs : S.Sizes p name data₂) :
    ∃ v', Volume.fromDevice w'.vol.dev = .ok v' ∧
      v'.answer (Volume.readFile path) = .ok data₂ ∧ Replaced v v' path := by
  have ha' := hwr.addresses h₁ ha
  obtain ⟨S', T', e', v', -, hw', heff, hwr', hv', hread⟩ :=
    hw.writeFile_written hwr.settled hrun haff ha' hs
  have hdir := kinds_of_mem (List.mem_of_find?_eq_some hwr.found)
  obtain ⟨n, hn, hd⟩ := Option.map_eq_some_iff.mp hdir
  have hfound : S.found p name = some e := (hwr.settled.found_eq hn hd name).trans hwr.found
  obtain ⟨l₁, l₂, now, hold, hnew⟩ := heff.replaced ha' hfound
  refine ⟨v', hv', hread, fun parent hparent => ?_⟩
  have hleads := hwr.settled.leads_of ha'
  have hleads' := hleads.kept hwr.settled.forest hwr'.others .self
  rw [← hparent] at hleads hleads'
  have hdir' := kinds_of_mem (List.mem_of_find?_eq_some hwr'.found)
  have hlist := hwr.settled.answer_listDir (hw.volRep hv) hleads hdir
  have hlist' := hwr'.settled.answer_listDir (hw'.volRep hv') hleads' hdir'
  rw [hold, List.map_append, List.map_cons] at hlist
  rw [hnew, List.map_append, List.map_cons] at hlist'
  exact ⟨_, _, _, _, hlist, hlist', rfl, rfl, rfl⟩

/-- After a run from a fresh format, what is written under a name that reads back as it was given,
where no other object has it, is what a reader gets, and a further write replaces it. -/
theorem writeFile_reads_back {dev dev' : Device} {totalBlocks : ℕ} {opts : FormatOptions}
    {now : Datestamp} {res : FormatResult} {clock : ℕ → Datestamp} {v : Volume} {w : Writer}
    (hformat : Format.formatWithSize totalBlocks opts now dev = .ok res dev')
    (hsound : dev.Sound) (htotal : totalBlocks ≤ dev.total)
    (hsmall : totalBlocks ≤ Format.MAXSMALLDISK) (hv : Volume.fromDevice dev' = .ok v)
    (hw : Writer.open v clock = .ok w) :
    ∃ g : Geometry, g.disksize = totalBlocks ∧ Rep g w (g.freshStore dev'.sectors clock) ∧
      ∀ calls w₁, calls.forM Call.run w = .ok () w₁ →
        Along Call.spec (fun c S => S.Affords c) calls (g.freshStore dev'.sectors clock) →
        ∃ S, calls.forM Call.spec (g.freshStore dev'.sectors clock) = .ok () S ∧ Rep g w₁ S ∧
          ∀ path p name data w₂, Writer.writeFile path data w₁ = .ok () w₂ →
            S.Affords (.writeFile path data) → S.Addresses path p name → S.Sizes p name data →
            ∃ S₂ v₂, Store.writeFile path data S = .ok () S₂ ∧
              Volume.fromDevice w₂.vol.dev = .ok v₂ ∧
              v₂.answer (Volume.readFile path) = .ok data ∧
              ∀ data₂ w₃, Writer.writeFile path data₂ w₂ = .ok () w₃ →
                S₂.Affords (.writeFile path data₂) → S₂.Sizes p name data₂ →
                ∃ v₃, Volume.fromDevice w₃.vol.dev = .ok v₃ ∧
                  v₃.answer (Volume.readFile path) = .ok data₂ ∧ Replaced v₂ v₃ path := by
  obtain ⟨g, hsize, hrep⟩ := rep_of_format hformat hsound htotal hsmall hv hw
  refine ⟨g, hsize, hrep, fun calls w₁ hrun halong => ?_⟩
  obtain ⟨S, T, hspec, hS, hset⟩ := hrep.run_calls (g.settled_freshStore _ _) hrun halong
  refine ⟨S, hspec, hS, fun path p name data w₂ hwrite haff ha hs => ?_⟩
  obtain ⟨S₂, T₂, e, v₂, hspec₂, hS₂, -, hwr, hv₂, hread⟩ :=
    hS.writeFile_written hset hwrite haff ha hs
  exact ⟨S₂, v₂, hspec₂, hv₂, hread, fun data₂ w₃ hwrite₂ haff₂ hs₂ =>
    hS₂.writeFile_replaced hset ha hwr hv₂ hwrite₂ haff₂ hs₂⟩

/-- What a reader of the writer's device gets at `path`. -/
def readAt (path : Name) (w : Writer) : Option (Except Error Bytes) :=
  match Volume.fromDevice w.vol.dev with
  | .ok v => some (v.answer (Volume.readFile path))
  | .error _ => none

def writtenAscii : Evaluated (smallSession [.writeFile ['f'] [1]]) fun _ => true :=
  .of (by decide +kernel)

def writtenLetter : Evaluated (smallSession [.writeFile ['é'] [1]]) fun w =>
    decide (readAt ['é'] w = some (.error (.notFound "é"))) :=
  .of (by decide +kernel)

/-- A file of one byte in the root of a small volume. -/
theorem writeFile_reads_back_f : ∃ w v, smallSession [.writeFile ['f'] [1]] = some w ∧
    Volume.fromDevice w.vol.dev = .ok v ∧ v.answer (Volume.readFile ['f']) = .ok [1] := by
  obtain ⟨w, hsession, -⟩ := writtenAscii
  obtain ⟨res, d', v₀, w₀, hformat, hv₀, hw₀, hcalls⟩ := of_session hsession
  obtain ⟨g, -, -, hall⟩ := writeFile_reads_back hformat (sound_blankDevice 67) (le_refl 67)
    (by decide) hv₀ hw₀
  obtain ⟨S, hspec, -, hwritten⟩ := hall [] w₀ rfl trivial
  cases hspec
  obtain ⟨⟨⟩, w₁, hwrite, hend⟩ := of_bind_eq_ok hcalls
  cases hend
  have hset := g.settled_freshStore d'.sectors fun _ => ⟨0, 0, 0⟩
  have hnone : ∀ e, (g.freshStore d'.sectors fun _ => ⟨0, 0, 0⟩).found ANODE_ROOTDIR ['f'] ≠
      some e := by
    intro e he
    rw [hset.found_eq g.freshOwners_root rfl, g.entriesOf_freshStore] at he
    cases he
  obtain ⟨S₂, v, -, hv, hread, -⟩ := hwritten ['f'] ANODE_ROOTDIR ['f'] [1] w hwrite
    (g.affords_writeFile d'.sectors _)
    ⟨rfl, rfl, by decide, fun e he => absurd he (hnone e)⟩
    ⟨by decide, fun e he => absurd he (hnone e)⟩
  exact ⟨w, v, hsession, hv, hread⟩

/-- The letter is stored as two, and nothing is found under it. -/
theorem writeFile_not_ascii : ∃ w v, smallSession [.writeFile ['é'] [1]] = some w ∧
    Volume.fromDevice w.vol.dev = .ok v ∧
    v.answer (Volume.readFile ['é']) = .error (.notFound "é") := by
  obtain ⟨w, hsession, hread⟩ := writtenLetter
  have hfail := of_decide_eq_true hread
  unfold readAt at hfail
  split at hfail
  · rename_i v hv
    exact ⟨w, v, hsession, hv, Option.some.inj hfail⟩
  · cases hfail

end Pfs3
