import Pfs3.Store.Calls
import Pfs3.Tree.Resize

/-!
# The effect of a call

What a successful call does to the tree, for calls that keep every object in one place: no hard
links, no `rename_in` onto the entry itself, and enough free anodes that no call has to register
two anode blocks.
-/

namespace Pfs3

open ByteList Stop

namespace Store

variable {S S' : Store} {T T' : Owners}

theorem Settled.found_eq (h : S.Settled T) {p : ℕ} {n : Node} (hp : T p = some n)
    (hdir : n.isDir = true) (name : Name) :
    S.found p name = (entriesOf S.live T p).find? (matchesName name) := by
  rw [Store.found, h.listEntries hp hdir (h.getChain hp)]

/-- The blocks of the object `p` on the device. -/
def blocksOf (S : Store) (p : ℕ) : List ℕ :=
  match S.disk.getChain p with
  | .ok chain => AnodeReader.chainBlocks chain
  | .error _ => []

theorem Settled.blocksOf (h : S.Settled T) {p : ℕ} {n : Node} (hp : T p = some n) :
    S.blocksOf p = n.blocks := by
  rw [Store.blocksOf, h.getChain hp]
  rfl

/-! ## What a call needs -/

/-- The directories that can be reached from the root. -/
inductive IsDirectory (S : Store) : ℕ → Prop
  | root : IsDirectory S ANODE_ROOTDIR
  | sub {p : ℕ} {es : List Entry} {e : Entry} (dir : IsDirectory S p)
      (list : S.disk.listEntries p = .ok es) (mem : e ∈ es) (isDir : e.isDir = true) :
      IsDirectory S e.anode.toNat

theorem Settled.isDirectory (h : S.Settled T) {p : ℕ} (hp : S.IsDirectory p) :
    ∃ n, T p = some n ∧ n.isDir = true := by
  induction hp with
  | root => exact h.root
  | sub _ hlist he hdir ih =>
      obtain ⟨n, hn, hnd⟩ := ih
      rw [h.listEntries hn hnd (h.getChain hn)] at hlist
      cases hlist
      obtain ⟨m, hm, hmd⟩ := h.node he
      exact ⟨m, hm, hmd.trans hdir⟩

/-- The size of a new entry. -/
def entrySize (name : Name) (fsize : ℕ) : ℕ :=
  (18 + min 107 (asBytes name).length + 1 + (if 0 < fsize / U32 % 65536 then 4 else 2) + 1) / 2 * 2

theorem size_build (now : Datestamp) (name : Name) (ty : ℤ) (anode fsize prot : ℕ) :
    (Entry.build now name ty anode fsize prot).size = entrySize name fsize := by
  have hname : (Entry.build now name ty anode fsize prot).name = (asBytes name).take 107 := by
    rw [Entry.build]
  have hfsizex : (Entry.build now name ty anode fsize prot).fsizex =
      if 0 < fsize / U32 % 65536 then some (UInt16.ofNat (fsize / U32)) else none := by
    rw [Entry.build]
  rw [Entry.size, hname, hfsizex, List.length_take, entrySize]
  split <;> rfl

/-- There is room for an object with `k` anodes and its entry in `p`. -/
def CanEnter (S : Store) (p k size : ℕ) : Prop :=
  S.Room (k + 1) ∨ (S.Room k ∧ S.HasSpace (S.blocksOf p) size)

theorem CanEnter.room {p k size : ℕ} {n : Node} (h : S.CanEnter p k size) (hS : S.Settled T)
    (hp : T p = some n) : ∃ j, S.Room (k + j) ∧ (¬ S.HasSpace n.blocks size → j = 1) := by
  rcases h with h | ⟨h, hspace⟩
  · exact ⟨1, h, fun _ => rfl⟩
  · rw [hS.blocksOf hp] at hspace
    exact ⟨0, h, fun hno => absurd hspace hno⟩

/-- What `write_file` needs in the directory `p`. -/
structure CanWrite (S : Store) (p : ℕ) (name : Name) (data : Bytes) : Prop where
  overwrite : ∀ e, S.found p name = some e → e.IsPlain →
    0 < Writer.blocksFor data.length % U32 ∧
      ((S.blocksOf e.anode.toNat).length < Writer.blocksFor data.length % U32 →
        S.Room (S.growAnodes (S.blocksOf e.anode.toNat).length data))
  create : (∀ e, S.found p name = some e → ¬ e.IsPlain) →
    S.CanEnter p (S.dataAnodes data) (entrySize name data.length)

/-- What a call needs to keep every object in one place. -/
def Affords (S : Store) : Call → Prop
  | .writeFile path data => ∀ p name, splitPath path S = .ok (p, name) S → S.CanWrite p name data
  | .createDir path => ∀ p name, splitPath path S = .ok (p, name) S →
      S.CanEnter p 1 (entrySize name 0)
  | .createSoftlink path target => ∀ p name, splitPath path S = .ok (p, name) S →
      S.CanEnter p (S.dataAnodes (asBytes target)) (entrySize name (asBytes target).length)
  | .createHardlink _ _ => False
  | .delete _ => True
  | .renameIn srcParent srcName dstParent dstName => S.IsDirectory srcParent ∧
      S.IsDirectory dstParent ∧ ¬ (srcParent = dstParent ∧ nameEqCi srcName dstName = true)
  | .updateDirEntryProtection dirAnode _ _ => S.IsDirectory dirAnode
  | .setVolumeName _ => True

/-! ## What a call does -/

/-- The entry `e` of the directory `p` got other protection bits. -/
structure Protected (S S' : Store) (T : Owners) (p : ℕ) (e : Entry) (protection : UInt8) :
    Prop where
  settled : S'.Settled T
  entries : ∃ l₁ l₂, entriesOf S.live T p = l₁ ++ e :: l₂ ∧
    entriesOf S'.live T p = l₁ ++ e.setProtection protection :: l₂
  entries_other : ∀ q, q ≠ p → entriesOf S'.live T q = entriesOf S.live T q
  heads : ∀ b, SameHead S S' b
  geo : S'.geo = S.geo
  data : S'.data = S.data

/-- The effect of a successful call. -/
inductive Effect (S S' : Store) (T T' : Owners) : Call → Prop
  | wrote {path : Name} {data : Bytes} {p nr : ℕ} {name : Name} {m : Node} {now : Datestamp}
      (split : splitPath path S = .ok (p, name) S)
      (fresh : ∀ e, S.found p name = some e → ¬ e.IsPlain)
      (enter : Entered S S' T T' p nr m (Entry.build now name ST_FILE nr data.length 0))
      (stored : StoredAs S S' m data) : Effect S S' T T' (.writeFile path data)
  | rewrote {path : Name} {data : Bytes} {p : ℕ} {name : Name} {e : Entry} {m : Node}
      {now : Datestamp} (split : splitPath path S = .ok (p, name) S)
      (old : S.found p name = some e) (plain : e.IsPlain)
      (rewritten : Rewritten S S' T p e m now data)
      (owners : T' = Function.update T e.anode.toNat (some m)) :
      Effect S S' T T' (.writeFile path data)
  | madeDir {path : Name} {p nr : ℕ} {name : Name} {m : Node} {now : Datestamp}
      (split : splitPath path S = .ok (p, name) S) (isDir : m.isDir = true)
      (enter : Entered S S' T T' p nr m (Entry.build now name ST_USERDIR nr 0 0)) :
      Effect S S' T T' (.createDir path)
  | linked {path target : Name} {p nr : ℕ} {name : Name} {m : Node} {now : Datestamp}
      (split : splitPath path S = .ok (p, name) S)
      (enter : Entered S S' T T' p nr m
        (Entry.build now name ST_SOFTLINK nr (asBytes target).length 0))
      (stored : StoredAs S S' m (asBytes target)) : Effect S S' T T' (.createSoftlink path target)
  | deleted {path : Name} {p : ℕ} {name : Name} {e : Entry} {l₁ l₂ : List Entry}
      (split : splitPath path S = .ok (p, name) S) (gone : Deleted S S' T p e l₁ l₂)
      (owners : T' = Function.update T e.anode.toNat none) : Effect S S' T T' (.delete path)
  | renamed {s d : ℕ} {srcName name : Name} {S₁ : Store} {T₁ : Owners} {e : Entry}
      {now : Datestamp} (source : S.found s srcName = some e) (clear : Cleared S S₁ T T₁ d name)
      (moved : Moved S₁ S' T₁ T' s d e (Entry.build now name e.entryType e.anode.toNat e.fileSize
        e.protection.toNat)) : Effect S S' T T' (.renameIn s srcName d name)
  | reprotected {p : ℕ} {name : Name} {protection : UInt8} {e : Entry}
      (changed : Protected S S' T p e protection) (owners : T' = T) :
      Effect S S' T T' (.updateDirEntryProtection p name protection)
  | named {name : Name} (settled : S'.Settled T) (live : S'.live = S.live) (geo : S'.geo = S.geo)
      (data : S'.data = S.data) (owners : T' = T) : Effect S S' T T' (.setVolumeName name)

theorem Effect.settled {c : Call} (h : Effect S S' T T' c) : S'.Settled T' := by
  cases h with
  | wrote _ _ enter => exact enter.settled
  | rewrote _ _ _ rewritten owners => exact owners ▸ rewritten.settled
  | madeDir _ _ enter => exact enter.settled
  | linked _ enter => exact enter.settled
  | deleted _ gone owners => exact owners ▸ gone.settled
  | renamed _ _ moved => exact moved.settled
  | reprotected changed owners => exact owners ▸ changed.settled
  | named settled _ _ _ owners => exact owners ▸ settled

/-- `split_path`, with the run it is about. -/
theorem post_splitPath_run (h : S.Settled T) (path : Name) :
    Post (splitPath path) (fun r S' => S' = S ∧ splitPath path S = .ok r S ∧
      ∃ n, T r.1 = some n ∧ n.isDir = true) anyError S := by
  refine (post_splitPath h path).run.mono ?_ fun _ _ h => h
  rintro r S' ⟨⟨rfl, hk⟩, hrun⟩
  exact ⟨rfl, hrun, Option.map_eq_some_iff.mp hk⟩

theorem post_updateDirEntryProtection {p : ℕ} {n : Node} (h : S.Settled T) (hp : T p = some n)
    (hdir : n.isDir = true) (name : Name) (protection : UInt8) :
    Post (updateDirEntryProtection p name protection)
      (fun _ S' => ∃ e, matchesName name e = true ∧ Protected S S' T p e protection)
      anyError S := by
  unfold updateDirEntryProtection
  refine (post_findDirEntry h.owned hp hdir (h.linked hp) ⟨[], (List.append_nil _).symm⟩ name).seq ?_
  rintro ⟨b, d, i⟩ S₀ ⟨hS, hfound⟩
  obtain rfl : S = S₀ := hS.symm
  dsimp only at hfound ⊢
  have hb := (h.owned.dirBlock hp hdir (b := b) (by
    obtain ⟨l₁, l₂, hsplit, -⟩ := hfound.split
    rw [hsplit]
    exact List.mem_append_right l₁ List.mem_cons_self)).2
  refine post_tick.seq ?_
  rintro _ _ rfl
  refine (post_writeDir (S := tick S) hb _).seq ?_
  rintro _ _ rfl
  have hedit : Edited S (setDir b (some { d with
      entries := d.entries.modify i (Entry.setProtection protection) }) (tick S)) T [] n name
      fun e => [e.setProtection protection] :=
    hfound.edited h.owned hp rfl rfl rfl rfl rfl rfl rfl (fun x e y hxy hlen => by
      show d.entries.modify i (Entry.setProtection protection) = _
      rw [hxy, ← hlen]
      exact modify_middle _ x e y) ⟨rfl, rfl⟩
  generalize setDir b (some { d with
    entries := d.entries.modify i (Entry.setProtection protection) }) (tick S) = S₁ at hedit
  refine post_updateRootblock.mono ?_ fun _ _ h => h
  rintro _ S₂ hc
  obtain ⟨⟨l₁, e, l₂, hl, he, -, hl'⟩, hother⟩ := hedit.entriesOf h.owned hp hdir
  have hforest := h.forest.change hl hl' rfl rfl hother
  refine ⟨e, he, hc.settled hedit.owned hforest, ⟨l₁, l₂, hl, by rw [hc.live]; exact hl'⟩,
    fun q hq => by rw [hc.live]; exact hother q hq, fun c dir hd => ?_, hc.geo.trans hedit.geo,
    hc.data.trans hedit.data⟩
  rw [hc.live]
  exact hedit.heads c dir hd

/-- What is settled does not depend on the datestamps and the data. -/
theorem Settled.of_eq (h : S.Settled T) (hgeo : S'.geo = S.geo) (hdisk : S'.disk = S.disk)
    (hlive : S'.live = S.live) (hres : S'.resFree = S.resFree)
    (hblocks : S'.blocksfree = S.blocksfree) (hreserved : S'.reservedFree = S.reservedFree)
    (hroot : S'.root = { S.root with datestamp := S'.root.datestamp }) : S'.Settled T := by
  refine ⟨h.owned.stays (stays_of_eq hgeo hdisk hlive hres fun _ => False)
    (h.owned.sane.of_eq hgeo hdisk hlive hres hblocks hreserved), ?_, ?_, ?_⟩
  · rw [hdisk, hlive, h.disk]
  · rw [hlive]
    exact h.forest
  · rw [hroot, hblocks, hreserved, hres]
    exact h.counters

theorem post_setVolumeName (h : S.Settled T) (name : Name) :
    Post (setVolumeName name) (fun _ S' => S'.Settled T ∧ S'.live = S.live ∧ S'.geo = S.geo ∧
      S'.data = S.data) anyError S := by
  unfold setVolumeName
  have hslice : Post (liftM (Writer.slicePrefix (min (asBytes name).length 30) name) : StoreM Name)
      (fun _ S' => S' = S) anyError S := by
    cases Writer.slicePrefix (min (asBytes name).length 30) name with
    | ok a => exact post_pure rfl
    | error f => exact trivial
  refine hslice.seq ?_
  rintro _ S₀ hS
  obtain rfl : S = S₀ := hS.symm
  refine post_nextDatestamp.seq ?_
  rintro ds _ ⟨rfl, -⟩
  exact post_modify ⟨h.of_eq rfl rfl rfl rfl rfl rfl rfl, rfl, rfl, rfl⟩

/-- What a call does that has what it needs. -/
theorem post_call (h : S.Settled T) (c : Call) (hc : S.Affords c) :
    Post c.spec (fun _ S' => ∃ T', Effect S S' T T' c) anyError S := by
  cases c with
  | writeFile path data =>
      refine (post_splitPath_run h path).seq ?_
      rintro ⟨p, name⟩ S₀ ⟨hS, hsplit, n, hp, hdir⟩
      obtain rfl : S = S₀ := hS.symm
      have hcan := hc p name hsplit
      refine (@post_writeFileIn _ _ _ _ name data h hp hdir (fun e m he hplain hm => ?_)
        fun hno => ?_).mono ?_ fun _ _ h => h
      · have hover := hcan.overwrite e he hplain
        rw [h.blocksOf hm] at hover
        exact hover
      · obtain ⟨k, hroom, hk⟩ := (hcan.create hno).room h hp
        exact ⟨k, hroom, fun now nr hspace => hk (size_build .. ▸ hspace)⟩
      · rintro _ S' (⟨e, m, now, he, hplain, hw⟩ | ⟨hno, T', nr, m, now, hent, hst⟩)
        · exact ⟨_, .rewrote hsplit he hplain hw rfl⟩
        · exact ⟨T', .wrote hsplit hno hent hst⟩
  | createDir path =>
      refine (post_splitPath_run h path).seq ?_
      rintro ⟨p, name⟩ S₀ ⟨hS, hsplit, n, hp, hdir⟩
      obtain rfl : S = S₀ := hS.symm
      obtain ⟨k, hroom, hk⟩ := CanEnter.room (hc p name hsplit) h hp
      refine (post_createDirIn h hp hdir hroom fun now nr hspace =>
        hk (size_build .. ▸ hspace)).mono ?_ fun _ _ h => h
      rintro _ S' ⟨T', nr, m, now, hent, hm, -⟩
      exact ⟨T', .madeDir hsplit hm hent⟩
  | createSoftlink path target =>
      refine (post_splitPath_run h path).seq ?_
      rintro ⟨p, name⟩ S₀ ⟨hS, hsplit, n, hp, hdir⟩
      obtain rfl : S = S₀ := hS.symm
      obtain ⟨k, hroom, hk⟩ := CanEnter.room (hc p name hsplit) h hp
      refine (post_createSoftlinkIn h hp hdir hroom fun now nr hspace =>
        hk (size_build .. ▸ hspace)).mono ?_ fun _ _ h => h
      rintro _ S' ⟨T', nr, m, now, hent, hst⟩
      exact ⟨T', .linked hsplit hent hst⟩
  | createHardlink path targetAnode => exact hc.elim
  | delete path =>
      refine (post_splitPath_run h path).seq ?_
      rintro ⟨p, name⟩ S₀ ⟨hS, hsplit, n, hp, hdir⟩
      obtain rfl : S = S₀ := hS.symm
      refine (post_deleteIn h hp hdir name).mono ?_ fun _ _ h => h
      rintro _ S' ⟨l₁, e, l₂, -, -, hgone⟩
      exact ⟨_, .deleted hsplit hgone rfl⟩
  | renameIn s srcName d name =>
      obtain ⟨hs, hd, hself⟩ := hc
      obtain ⟨n, hn, hnd⟩ := h.isDirectory hs
      obtain ⟨m, hm, hmd⟩ := h.isDirectory hd
      refine (post_renameIn h hn hnd hm hmd hself).mono ?_ fun _ _ h => h
      rintro _ S' ⟨S₁, T₁, T', e, now, he, hclear, -, hmoved, -⟩
      exact ⟨T', .renamed ((h.found_eq hn hnd srcName).trans he) hclear hmoved⟩
  | updateDirEntryProtection p name protection =>
      obtain ⟨n, hn, hnd⟩ := h.isDirectory hc
      refine (post_updateDirEntryProtection h hn hnd name protection).mono ?_ fun _ _ h => h
      rintro _ S' ⟨e, -, hprot⟩
      exact ⟨T, .reprotected hprot rfl⟩
  | setVolumeName name =>
      refine (post_setVolumeName h name).mono ?_ fun _ _ h => h
      rintro _ S' ⟨hset, hlive, hgeo, hdata⟩
      exact ⟨T, .named hset hlive hgeo hdata rfl⟩

end Store

end Pfs3
