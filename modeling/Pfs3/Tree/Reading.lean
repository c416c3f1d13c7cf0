import Pfs3.Tree.Meaning

/-!
# Reading a file system

Whoever reads a volume, with the writer that works on it or on the device alone, gets what the file
system says, errors included.
-/

namespace Pfs3

open ByteList Stop Store

theorem answer_of_raise {α β : Type} {I : Volume → Prop} {Q : α → β → Prop} {m : VolumeM α}
    {e : Error} {v : Volume} (h : Reads I Q m (.error (.raise (.err e)))) (hv : I v) :
    v.answer m = .error e := by
  obtain ⟨v', hrun, -⟩ := h.raise hv
  simp only [Volume.answer, hrun]

/-- The readers of the volume read the file system. -/
structure ReadsAs (v : Volume) (fs : FileSystem) : Prop where
  lookup : ∀ path, (v.answer (Volume.lookup path)).map (Option.map DirEntry.item) = fs.lookup path
  readFile : ∀ path, v.answer (Volume.readFile path) = fs.readFile path
  listDir : ∀ path p, fs.dirAt path = .ok p → ∃ es, v.answer (Volume.listDir path) = .ok es ∧
    (es.map fun e => foldName e.name).Nodup ∧
    ∀ name i, fs.find p name = some i ↔ ∃ e ∈ es, foldName e.name = foldName name ∧ i = e.item
  listDir_error : ∀ path e, fs.dirAt path = .error e → v.answer (Volume.listDir path) = .error e

namespace Store

variable {S : Store} {T : Owners} {fs : FileSystem} {v : Volume} {p q : ℕ} {name path : Name}

/-! ## The structured readers -/

theorem Settled.lookupLast (h : S.Settled T) (hp : kinds T p = some true) (name : Name) :
    S.disk.lookupLast p name = .ok ((entriesOf S.live T p).find? (matchesName name)) := by
  unfold Meta.lookupLast
  rw [h.lookup hp]
  cases (entriesOf S.live T p).find? (matchesName name) <;> rfl

namespace Shows

/-- What the file system finds is the first entry with the name. -/
theorem find_split (hs : S.Shows T fs) (p : ℕ) (name : Name) :
    ((entriesOf S.live T p).find? (matchesName name) = none ∧ fs.find p name = none) ∨
      ∃ e, (entriesOf S.live T p).find? (matchesName name) = some e ∧
        fs.find p name = some e.item := by
  cases hf : (entriesOf S.live T p).find? (matchesName name) with
  | none => exact .inl ⟨rfl, hs.lists.find_none hf⟩
  | some e => exact .inr ⟨e, rfl, hs.lists.find_some hf⟩

theorem walk_isDir (hs : S.Shows T fs) (h : S.Settled T) (parts : List Name) :
    ∀ {p}, kinds T p = some true → fs.walk p parts = .ok q → kinds T q = some true := by
  induction parts with
  | nil =>
      intro p hp hwalk
      cases hwalk
      exact hp
  | cons part rest ih =>
      intro p _ hwalk
      unfold FileSystem.walk at hwalk
      rcases hs.find_split p part with ⟨-, hnone⟩ | ⟨e, hfound, hfind⟩
      · rw [hnone] at hwalk
        cases hwalk
      · rw [hfind] at hwalk
        dsimp only at hwalk
        split at hwalk
        · rename_i hdir
          exact ih (h.kinds_find hfound hdir) hwalk
        · cases hwalk

theorem resolveDirParts (hs : S.Shows T fs) (h : S.Settled T) (parts : List Name) :
    ∀ {p}, kinds T p = some true → S.disk.resolveDirParts p parts = answered (fs.walk p parts) := by
  induction parts with
  | nil => exact fun _ => rfl
  | cons part rest ih =>
      intro p hp
      unfold Meta.resolveDirParts FileSystem.walk
      rw [h.lookup hp part]
      rcases hs.find_split p part with ⟨hnot, hnone⟩ | ⟨e, hfound, hfind⟩
      · rw [hnot, hnone]
        rfl
      · rw [hfound, hfind]
        show (if e.isDir then S.disk.resolveDirParts e.anode.toNat rest
          else Reader.fail .notADirectory) =
          answered (if e.isDir then fs.walk e.anode.toNat rest else .error .notADirectory)
        split
        · rename_i hdir
          exact ih (h.kinds_find hfound hdir)
        · rfl

theorem resolveParts (hs : S.Shows T fs) (h : S.Settled T) (parts : List Name) :
    ∀ {p}, kinds T p = some true → S.disk.resolveParts p (parts ++ [name]) =
      answered (fs.walk p parts) >>= fun q =>
        .ok ((entriesOf S.live T q).find? (matchesName name)) := by
  induction parts with
  | nil => exact fun hp => h.lookupLast hp name
  | cons part parts ih =>
      intro p hp
      obtain ⟨next, rest, hrest⟩ : ∃ next rest, parts ++ [name] = next :: rest :=
        List.exists_cons_of_ne_nil (List.append_ne_nil_of_right_ne_nil _ (List.cons_ne_nil _ _))
      rw [List.cons_append]
      rw [hrest] at ih ⊢
      unfold Meta.resolveParts FileSystem.walk
      rw [h.lookup hp part]
      rcases hs.find_split p part with ⟨hnot, hnone⟩ | ⟨e, hfound, hfind⟩
      · rw [hnot, hnone]
        rfl
      · rw [hfound, hfind]
        show (if e.isDir then S.disk.resolveParts e.anode.toNat (next :: rest)
          else Reader.fail .notADirectory) =
          answered (if e.isDir then fs.walk e.anode.toNat parts else .error .notADirectory) >>= _
        split
        · rename_i hdir
          exact ih (h.kinds_find hfound hdir)
        · rfl

/-- Looking up a path on the disk: the parent directory first, then the name there. -/
theorem lookupPath (hs : S.Shows T fs) (h : S.Settled T) (path : Name) :
    S.disk.lookupPath path = answered (fs.parent path) >>= fun
      | none => .ok none
      | some (q, name) => .ok ((entriesOf S.live T q).find? (matchesName name)) := by
  unfold Meta.lookupPath FileSystem.parent
  rcases (pathParts path).eq_nil_or_concat with hnil | ⟨parts, name, hparts⟩
  · rw [hnil]
    rfl
  · rw [hparts, List.concat_eq_append, List.getLast?_concat, List.dropLast_concat, hs.resolveParts h parts h.forest.root]
    dsimp only
    cases fs.walk ANODE_ROOTDIR parts <;> rfl

/-! ## The volume -/

theorem lookup (hs : S.Shows T fs) (h : S.Settled T) (hv : VolRep v S.geo S.disk S.data)
    (path : Name) :
    (v.answer (Volume.lookup path)).map (Option.map DirEntry.item) = fs.lookup path := by
  have hreads := hv.lookup path
  rw [hs.lookupPath h] at hreads
  unfold FileSystem.lookup
  rcases hparent : fs.parent path with e | (_ | ⟨q, name⟩) <;> rw [hparent] at hreads
  · rw [answer_of_raise hreads hv.refl]
    rfl
  · obtain ⟨_, hanswer, rfl⟩ := answer_of_reads hreads hv.refl
    rw [hanswer]
    rfl
  · obtain ⟨_, hanswer, rfl⟩ := answer_of_reads hreads hv.refl
    rw [hanswer]
    show Except.ok (((entriesOf S.live T q).find? (matchesName name)).map Entry.toDirEntry |>.map
      DirEntry.item) = Except.ok (fs.find q name)
    rw [hs.lists.find?_eq, Option.map_map]
    rfl

theorem readFile (hs : S.Shows T fs) (h : S.Settled T) (hv : VolRep v S.geo S.disk S.data)
    (path : Name) : v.answer (Volume.readFile path) = fs.readFile path := by
  have hreads := hv.readFile path
  unfold Meta.readFile at hreads
  rw [hs.lookupPath h] at hreads
  rcases hparent : fs.parent path with e | (_ | ⟨q, name⟩) <;> rw [hparent] at hreads
  · rw [FileSystem.readFile, FileSystem.lookup, hparent]
    exact answer_of_raise hreads hv.refl
  · rw [FileSystem.readFile, FileSystem.lookup, hparent]
    exact answer_of_raise hreads hv.refl
  · rcases hs.find_split q name with ⟨hnot, hnone⟩ | ⟨e, hfound, hfind⟩
    · rw [FileSystem.readFile_of_parent hparent, hnone]
      simp only [answered, ok_bind, hnot] at hreads
      exact answer_of_raise hreads hv.refl
    · rw [FileSystem.readFile_of_parent hparent, hfind]
      simp only [answered, ok_bind, hfound] at hreads
      have hmem := List.mem_of_find?_eq_some hfound
      cases hdir : e.isDir with
      | true =>
          rw [hdir, if_pos rfl] at hreads
          have hitem : e.item.isDir = true := hdir
          dsimp only
          rw [if_pos hitem]
          exact answer_of_raise hreads hv.refl
      | false =>
          obtain ⟨n, hn, hkind⟩ := h.node hmem
          rw [hdir, if_neg Bool.false_ne_true, h.readFileData hn (hkind.trans hdir),
            ← contentsOf_some hn] at hreads
          have hitem : e.item.isDir = false := hdir
          obtain ⟨_, hanswer, rfl⟩ := answer_of_reads hreads hv.refl
          rw [hanswer]
          dsimp only
          rw [hitem, if_neg Bool.false_ne_true]
          exact congrArg Except.ok (hs.bytes hmem hdir).symm

theorem listDir (hs : S.Shows T fs) (h : S.Settled T) (hv : VolRep v S.geo S.disk S.data)
    (hdir : fs.dirAt path = .ok p) :
    v.answer (Volume.listDir path) = .ok ((entriesOf S.live T p).map Entry.toDirEntry) := by
  have hreads := hv.listDir path
  unfold Meta.listDir Meta.resolveDirPath at hreads
  have hwalk : fs.walk ANODE_ROOTDIR (pathParts path) = .ok p := hdir
  obtain ⟨n, hn, hd⟩ := Option.map_eq_some_iff.mp (hs.walk_isDir h _ h.forest.root hwalk)
  rw [hs.resolveDirParts h _ h.forest.root, hwalk] at hreads
  simp only [answered, ok_bind, h.listEntries hn hd (h.getChain hn)] at hreads
  obtain ⟨_, hanswer, rfl⟩ := answer_of_reads hreads hv.refl
  exact hanswer

theorem listDir_error {e : Error} (hs : S.Shows T fs) (h : S.Settled T)
    (hv : VolRep v S.geo S.disk S.data) (hdir : fs.dirAt path = .error e) :
    v.answer (Volume.listDir path) = .error e := by
  have hreads := hv.listDir path
  unfold Meta.listDir Meta.resolveDirPath at hreads
  have hwalk : fs.walk ANODE_ROOTDIR (pathParts path) = .error e := hdir
  rw [hs.resolveDirParts h _ h.forest.root, hwalk] at hreads
  exact answer_of_raise hreads hv.refl

/-- A volume that stands for the store reads as its file system. -/
theorem readsAs (hs : S.Shows T fs) (h : S.Settled T) (hv : VolRep v S.geo S.disk S.data) :
    ReadsAs v fs where
  lookup := hs.lookup h hv
  readFile := hs.readFile h hv
  listDir path p hdir := by
    refine ⟨_, hs.listDir h hv hdir, ?_, fun name i => ?_⟩
    · rw [List.map_map]
      exact (List.Nodup.of_map _ (h.forest.nodup p)).map_on fun x hx y hy heq =>
        hs.lists.names hx hy heq
    · rw [hs.lists.find]
      constructor
      · rintro ⟨e, he, hname, hi⟩
        exact ⟨e.toDirEntry, List.mem_map_of_mem he, hname, hi⟩
      · rintro ⟨x, hx, hname, hi⟩
        obtain ⟨e, he, rfl⟩ := List.mem_map.mp hx
        exact ⟨e, he, hname, hi⟩
  listDir_error _ _ hdir := hs.listDir_error h hv hdir

end Shows

end Store

/-! ## Runs -/

theorem Geometry.shows_freshStore (g : Geometry) (data : ℕ → Sector) (clock : ℕ → Datestamp) :
    (g.freshStore data clock).Shows g.freshOwners .empty := by
  refine ⟨⟨fun {p x y} hx => ?_, fun {p name i} => ⟨fun hi => ?_, ?_⟩⟩, fun {p e} he => ?_⟩
  · rw [g.entriesOf_freshStore] at hx
    cases hx
  · cases hi
  · rintro ⟨e, he, -⟩
    rw [g.entriesOf_freshStore] at he
    cases he
  · rw [g.entriesOf_freshStore] at he
    cases he

/-- A run of the writer is a run of the file system. -/
theorem Rep.run_meaning {g : Geometry} (calls : List Call) :
    ∀ {w w' : Writer} {S : Store} {T : Owners} {fs : FileSystem}, Rep g w S → S.Settled T →
      S.Shows T fs → calls.forM Call.run w = .ok () w' →
      Along Call.spec (fun c S => S.Affords c ∧ S.Proper c) calls S →
      ∃ S' T' fs', calls.forM Call.spec S = .ok () S' ∧ Rep g w' S' ∧ S'.Settled T' ∧
        S'.Shows T' fs' ∧ FileSystem.Run fs calls fs' := by
  induction calls with
  | nil =>
      intro w w' S T fs hw h hs hrun _
      cases hrun
      exact ⟨S, T, fs, rfl, hw, h, hs, .nil⟩
  | cons c calls ih =>
      intro w w' S T fs hw h hs hrun halong
      obtain ⟨⟨⟩, w₁, hcall, hcalls⟩ := of_bind_eq_ok hrun
      obtain ⟨⟨haff, hproper⟩, hrest⟩ := halong
      obtain ⟨S₁, hspec, hw₁, T₁, fs₁, hset₁, hs₁, hstep⟩ :=
        (c.sim hw).follow (post_meaning hs h c haff hproper) hcall
      obtain ⟨S', T', fs', hspecs, hw', hset', hs', hrun'⟩ :=
        ih hw₁ hset₁ hs₁ hcalls (hrest S₁ hspec)
      refine ⟨S', T', fs', ?_, hw', hset', hs', .cons hstep hrun'⟩
      show (c.spec >>= fun _ => calls.forM Call.spec) S = _
      rw [bind_of_ok hspec]
      exact hspecs

/-- The writer and a volume opened on its device read the same file system. -/
theorem Rep.readsAs {g : Geometry} {w : Writer} {S : Store} {T : Owners} {fs : FileSystem}
    (hw : Rep g w S) (h : S.Settled T) (hs : S.Shows T fs) :
    ∃ v, Volume.fromDevice w.vol.dev = .ok v ∧ ReadsAs w.vol fs ∧ ReadsAs v fs := by
  obtain ⟨v, hv, -⟩ := hw.reopen
  have hrep := hw.volRep hv
  rw [← hw.geo] at hrep
  exact ⟨v, hv, hs.readsAs h hw.vol, hs.readsAs h hrep⟩

/-- From a fresh format on, the calls do to the volume what they do to a file system, and everyone
who reads it reads that file system: the writer, and who opens the device. -/
theorem volume_reads_as {dev dev' : Device} {totalBlocks : ℕ} {opts : FormatOptions}
    {now : Datestamp} {res : FormatResult} {clock : ℕ → Datestamp} {v : Volume} {w : Writer}
    (hformat : Format.formatWithSize totalBlocks opts now dev = .ok res dev')
    (hsound : dev.Sound) (htotal : totalBlocks ≤ dev.total)
    (hsmall : totalBlocks ≤ Format.MAXSMALLDISK) (hv : Volume.fromDevice dev' = .ok v)
    (hw : Writer.open v clock = .ok w) :
    ∃ g : Geometry, g.disksize = totalBlocks ∧ Rep g w (g.freshStore dev'.sectors clock) ∧
      ∀ calls w', calls.forM Call.run w = .ok () w' →
        Along Call.spec (fun c S => S.Affords c ∧ S.Proper c) calls
          (g.freshStore dev'.sectors clock) →
        ∃ fs v', FileSystem.Run .empty calls fs ∧ ReadsAs w'.vol fs ∧
          Volume.fromDevice w'.vol.dev = .ok v' ∧ ReadsAs v' fs := by
  obtain ⟨g, hsize, hrep⟩ := rep_of_format hformat hsound htotal hsmall hv hw
  refine ⟨g, hsize, hrep, fun calls w' hrun halong => ?_⟩
  obtain ⟨S, T, fs, -, hS, hset, hs, hmeaning⟩ := hrep.run_meaning calls
    (g.settled_freshStore _ _) (g.shows_freshStore _ _) hrun halong
  obtain ⟨v', hv', hread, hread'⟩ := hS.readsAs hset hs
  exact ⟨fs, v', hmeaning, hread, hv', hread'⟩

theorem Geometry.proper_writeFile (g : Geometry) (data : ℕ → Sector) (clock : ℕ → Datestamp) :
    (g.freshStore data clock).Proper (.writeFile ['f'] [1]) := by
  intro p name hsplit
  cases hsplit
  have hset := g.settled_freshStore data clock
  have hnone : ∀ e, (g.freshStore data clock).found ANODE_ROOTDIR ['f'] ≠ some e := by
    intro e he
    rw [hset.found_eq g.freshOwners_root rfl, g.entriesOf_freshStore] at he
    cases he
  exact ⟨by decide, fun e he => absurd he (hnone e), by decide, fun e he => absurd he (hnone e)⟩

/-- A file of one byte in the root of a small volume. -/
theorem volume_reads_as_f : ∃ w v fs, smallSession [.writeFile ['f'] [1]] = some w ∧
    FileSystem.Run .empty [.writeFile ['f'] [1]] fs ∧ ReadsAs w.vol fs ∧
    Volume.fromDevice w.vol.dev = .ok v ∧ ReadsAs v fs := by
  obtain ⟨w, hsession, -⟩ := writtenAscii
  obtain ⟨res, d', v₀, w₀, hformat, hv₀, hw₀, hcalls⟩ := of_session hsession
  obtain ⟨g, -, -, hall⟩ := volume_reads_as hformat (sound_blankDevice 67) (le_refl 67)
    (by decide) hv₀ hw₀
  obtain ⟨fs, v, hrun, hread, hv, hread'⟩ := hall [.writeFile ['f'] [1]] w hcalls
    ⟨⟨g.affords_writeFile d'.sectors _, g.proper_writeFile d'.sectors _⟩, fun _ _ => trivial⟩
  exact ⟨w, v, fs, hsession, hrun, hread, hv, hread'⟩

end Pfs3
