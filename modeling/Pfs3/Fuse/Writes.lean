import Pfs3.Model.Fuse
import Pfs3.Tree.Kept

/-!
# Writes reach the disk

What an open file holds stands in its write buffer until a handle is released.  Between two
requests the buffer of a file, or its blocks when there is none, holds what all writes and
truncations so far have made of it, as long as no buffer is replaced or skipped that holds
something the image does not.
-/

namespace Pfs3

open ByteList Stop Store

namespace Fuse

/-! ## Requests -/

/-- The requests that read and write files. -/
inductive Request
  | lookup (parent : ℕ) (name : Name)
  | readdir (ino : ℕ)
  | «open» (ino : ℕ) (flags : OpenFlags)
  | create (parent : ℕ) (name : Name)
  | write (ino offset : ℕ) (data : Bytes)
  | setattr (ino size : ℕ)
  | read (ino offset size : ℕ)
  | release (ino : ℕ)

/-- The handler of a request, with the attributes it replies. -/
def Request.handle : Request → FuseM (Option FileAttr)
  | .lookup parent name => do
      let attr ← Fuse.lookup parent name
      pure (some attr)
  | .readdir ino => do
      let _ ← Fuse.readdir ino
      pure none
  | .open ino flags => do
      Fuse.open ino flags
      pure none
  | .create parent name => do
      let attr ← Fuse.create parent name
      pure (some attr)
  | .write ino offset data => do
      let _ ← Fuse.write ino offset data
      pure none
  | .setattr ino size => do
      let attr ← Fuse.setattr ino size
      pure (some attr)
  | .read ino offset size => do
      let _ ← Fuse.read ino offset size
      pure none
  | .release ino => do
      Fuse.release ino
      pure none

/-! ## The reference -/

/-- The bytes of every file, by its inode, and the number of its open handles. -/
structure Reference where
  bytes : ℕ → Bytes
  handles : ℕ → ℕ

namespace Reference

/-- A file gets other bytes. -/
def put (r : Reference) (ino : ℕ) (bytes : Bytes) : Reference :=
  { r with bytes := Function.update r.bytes ino bytes }

def opened (r : Reference) (ino : ℕ) : Reference :=
  { r with handles := Function.update r.handles ino (r.handles ino + 1) }

def released (r : Reference) (ino : ℕ) : Reference :=
  { r with handles := Function.update r.handles ino (r.handles ino - 1) }

/-- A request and its reply: writes and truncations are applied at once. -/
def step (r : Reference) : Request → Option FileAttr → Reference
  | .open ino flags, _ => (if flags.trunc then r.put ino [] else r).opened ino
  | .create _ _, some attr => (r.put attr.ino []).opened attr.ino
  | .write ino offset data, _ => r.put ino (writeAt (r.bytes ino) offset data)
  | .setattr ino size, _ => r.put ino (resize (r.bytes ino) size)
  | .release ino, _ => r.released ino
  | _, _ => r

end Reference

/-- Serving requests one after the other, as long as all are answered without error. -/
def serve : List Request → FsInner → Reference → Option (FsInner × Reference)
  | [], f, r => some (f, r)
  | q :: qs, f, r =>
      match q.handle f with
      | .ok reply f' => serve qs f' (r.step q reply)
      | .error _ _ => none

/-! ## The condition -/

end Fuse

namespace Store

/-- `e` is the entry of a file in a directory that can be reached from the root. -/
def HasFile (S : Store) (e : Entry) : Prop :=
  ∃ p es, S.IsDirectory p ∧ S.disk.listEntries p = .ok es ∧ e ∈ es ∧ e.isDir = false

/-- The bytes of a file on the image. -/
def onImage (S : Store) (e : Entry) : Reader Bytes :=
  S.disk.readFileData S.geo S.data e.anode.toNat e.fileSize

end Store

namespace Fuse

/-- The condition under which a request loses nothing, on the state before it. -/
def Proper (f : FsInner) (S : Store) : Request → Prop
  | .lookup parent _ => ∀ info, f.inodes parent = some info → info.attr.kind = .directory
  | .open ino flags => flags.isWrite = true → flags.trunc = false →
      ∃ e info, S.HasFile e ∧ f.inodes ino = some info ∧ anodeToIno e.anode.toNat = ino ∧
        info.anode = e.anode.toNat ∧ info.attr.size = e.fileSize ∧
        ∀ p name buf, f.writeBufs ino = some (p, name, buf) → S.onImage e = .ok buf
  | .create parent name => ∀ info, f.inodes parent = some info → S.CanWrite info.anode name [] ∧
      ∀ e, S.found info.anode name = some e → e.IsPlain
  | .setattr ino size => f.writeBufs ino = none → ∀ e, S.HasFile e →
      anodeToIno e.anode.toNat = ino → ∃ bytes, S.onImage e = .ok bytes ∧ bytes.length = size
  | .release ino => ∀ p name buf, f.writeBufs ino = some (p, name, buf) →
      (buf = [] → ∀ e, S.HasFile e → anodeToIno e.anode.toNat = ino → S.onImage e = .ok []) ∧
      (buf ≠ [] → ∃ e info, S.IsDirectory p ∧ S.found p name = some e ∧ e.IsPlain ∧
        f.inodes ino = some info ∧ anodeToIno e.anode.toNat = ino ∧
        info.anode = e.anode.toNat ∧ info.anode ≠ 0 ∧ Writer.blocksFor buf.length < U32 ∧
        (∀ now, (e.setSize buf.length now).fileSize = buf.length) ∧
        ((S.blocksOf e.anode.toNat).length < Writer.blocksFor buf.length →
          S.Room (S.growAnodes (S.blocksOf e.anode.toNat).length buf)))
  | _ => True

/-- Every request of the run meets the condition, on what the driver's writer stands for. -/
def Meets (g : Geometry) : List Request → FsInner → Prop
  | [], _ => True
  | q :: qs, f => (∀ S T, Rep g f.access S → S.Settled T → Proper f S q) ∧
      ∀ reply f', q.handle f = .ok reply f' → Meets g qs f'

/-! ## The invariant -/

/-- What a file holds for the driver: the write buffer, or the blocks. -/
def shown (f : FsInner) (S : Store) (T : Owners) (x : Entry) : Bytes :=
  match f.writeBufs (anodeToIno x.anode.toNat) with
  | some (_, _, buf) => buf
  | none => S.contentsOf T x

theorem shown_buffered {f : FsInner} {S : Store} {T : Owners} {x : Entry} {ino p : ℕ} {name : Name}
    {buf : Bytes} (hino : anodeToIno x.anode.toNat = ino)
    (h : f.writeBufs ino = some (p, name, buf)) : shown f S T x = buf := by
  unfold shown
  rw [hino, h]

theorem shown_unbuffered {f : FsInner} {S : Store} {T : Owners} {x : Entry} {ino : ℕ}
    (hino : anodeToIno x.anode.toNat = ino) (h : f.writeBufs ino = none) :
    shown f S T x = contentsOf S T x := by
  unfold shown
  rw [hino, h]

/-- The driver agrees with the reference. -/
structure Agrees (g : Geometry) (f : FsInner) (r : Reference) (S : Store) (T : Owners) : Prop where
  rep : Rep g f.access S
  settled : S.Settled T
  dirs : ∀ ino info, f.inodes ino = some info → info.attr.kind = .directory →
    kinds T info.anode = some true
  bytes : ∀ k p x, Below (entriesOf S.live T) ANODE_ROOTDIR k p → x ∈ entriesOf S.live T p →
    x.isDir = false → shown f S T x = r.bytes (anodeToIno x.anode.toNat)
  closed : ∀ ino, r.handles ino = 0 → f.writeBufs ino = none

theorem anodeToIno_inj {a b : ℕ} (h : anodeToIno a = anodeToIno b) : a = b := by
  have hroot : ANODE_ROOTDIR = 5 := rfl
  have hino : FUSE_ROOT_INO = 1 := rfl
  have hoff : INODE_ANODE_OFFSET = 100 := rfl
  unfold anodeToIno at h
  split at h <;> split at h <;> omega

/-! ## Calls on the library -/

section Handlers

variable {g : Geometry} {f f' : FsInner} {r : Reference} {S S' : Store} {T T' : Owners}

theorem of_library {α : Type} {m : WriterM α} {x : Except Error α} (h : library m f = .ok x f') :
    (∃ a w, m f.access = .ok a w ∧ x = .ok a ∧ f' = { f with access := w }) ∨
      ∃ e w, m f.access = .error (.err e) w ∧ x = .error e ∧ f' = { f with access := w } := by
  unfold library at h
  split at h
  · rename_i a w hm
    cases h
    exact Or.inl ⟨a, w, hm, rfl, rfl⟩
  · rename_i e w hm
    cases h
    exact Or.inr ⟨e, w, hm, rfl, rfl⟩
  · cases h

theorem of_orReply {α : Type} {m : WriterM α} {errno : Errno} {a : α}
    (h : orReply m errno f = .ok a f') :
    ∃ w, m f.access = .ok a w ∧ f' = { f with access := w } := by
  obtain ⟨x, f₁, hx, hrest⟩ := of_bind_eq_ok h
  rcases of_library hx with ⟨b, w, hm, rfl, rfl⟩ | ⟨e, w, -, rfl, -⟩
  · cases hrest
    exact ⟨w, hm, rfl⟩
  · cases hrest

/-- Listing a directory of the volume. -/
theorem of_listDir {d : ℕ} {entries : List DirEntry} {w w' : Writer} (hrep : Rep g w S)
    (h : S.Settled T) (hd : kinds T d = some true) (hrun : listDir d w = .ok entries w') :
    Rep g w' S ∧ entries = (entriesOf S.live T d).map Entry.toDirEntry := by
  obtain ⟨n, hn, hdir⟩ := Option.map_eq_some_iff.mp hd
  obtain ⟨es, w₁, hw₁, hes, hrep'⟩ := (hrep.listDirByAnode d).ok (h.listDir_run hn hdir)
  have heq : listDir d w = .ok es w₁ := hw₁
  rw [hrun] at heq
  cases heq
  exact ⟨hrep', hes⟩

/-! ## Known directories -/

/-- The inodes of directories are known under directories' anodes. -/
def DirsKnown (f : FsInner) (T : Owners) : Prop :=
  ∀ ino info, f.inodes ino = some info → info.attr.kind = .directory → kinds T info.anode = some true

theorem DirsKnown.insert (h : DirsKnown f T) {ino : ℕ} {info : InodeInfo}
    (hinfo : info.attr.kind = .directory → kinds T info.anode = some true) :
    DirsKnown (insertInode ino info f) T := by
  intro i x hx hkind
  change Function.update f.inodes ino (some info) i = some x at hx
  by_cases hi : i = ino
  · rw [hi, Function.update_self] at hx
    cases hx
    exact hinfo hkind
  · rw [Function.update_of_ne hi] at hx
    exact h i x hx hkind

theorem DirsKnown.modifyAttr (h : DirsKnown f T) {ino : ℕ} {u : FileAttr → FileAttr}
    (hu : ∀ attr, (u attr).kind = attr.kind) : DirsKnown (Fuse.modifyAttr ino u f) T := by
  intro i x hx hkind
  change Function.update f.inodes ino _ i = some x at hx
  by_cases hi : i = ino
  · rw [hi, Function.update_self] at hx
    obtain ⟨info, hinfo, rfl⟩ := Option.map_eq_some_iff.mp hx
    exact h ino info hinfo ((hu info.attr).symm.trans hkind)
  · rw [Function.update_of_ne hi] at hx
    exact h i x hx hkind

theorem DirsKnown.mono (h : DirsKnown f T)
    (hT : ∀ q, kinds T q = some true → kinds T' q = some true) : DirsKnown f T' :=
  fun ino info hinfo hkind => hT _ (h ino info hinfo hkind)

theorem isDir_of_makeAttr {e : DirEntry} {parent : ℕ}
    (h : (makeAttr e parent).2.attr.kind = .directory) : e.isDir = true := by
  have hkind : (if e.isDir then FileType.directory
    else if e.isSoftlink then .symlink else .regularFile) = .directory := h
  split at hkind
  · assumption
  · split at hkind <;> cases hkind

/-- An entry of a directory of the volume makes a known inode. -/
theorem known_of_entry (h : S.Settled T) {d parent : ℕ} {e : DirEntry}
    (he : e ∈ (entriesOf S.live T d).map Entry.toDirEntry)
    (hkind : (makeAttr e parent).2.attr.kind = .directory) :
    kinds T (makeAttr e parent).2.anode = some true := by
  obtain ⟨x, hx, rfl⟩ := List.mem_map.mp he
  exact (h.forest.entry hx).1.trans (congrArg some (isDir_of_makeAttr hkind))

/-! ## Requests that leave the files alone -/

/-- Neither the buffers nor the volume changed. -/
theorem Agrees.quiet (h : Agrees g f r S T) (hrep : Rep g f'.access S)
    (hbufs : f'.writeBufs = f.writeBufs) (hdirs : DirsKnown f' T) : Agrees g f' r S T where
  rep := hrep
  settled := h.settled
  dirs := hdirs
  bytes := fun k p x hp hx hfile => by
    have hsame : shown f' S T x = shown f S T x := by
      unfold shown
      rw [hbufs]
    exact hsame.trans (h.bytes k p x hp hx hfile)
  closed := fun ino hino => by
    rw [hbufs]
    exact h.closed ino hino

theorem agrees_lookup (h : Agrees g f r S T) {parent : ℕ} {name : Name} {attr : FileAttr}
    (hp : Proper f S (.lookup parent name)) (hrun : Fuse.lookup parent name f = .ok attr f') :
    Agrees g f' r S T := by
  unfold Fuse.lookup at hrun
  obtain ⟨f₀, f₁, hget, hrun⟩ := of_bind_eq_ok hrun
  cases hget
  split at hrun
  · cases hrun
    exact h
  · split at hrun
    · unfold lookupDeleted at hrun
      obtain ⟨f₀, f₁, hget, hrun⟩ := of_bind_eq_ok hrun
      cases hget
      cases hfind : f.deldir.find? fun de => nameEqCi de.displayName name with
      | none =>
          rw [hfind] at hrun
          cases hrun
      | some de =>
          rw [hfind] at hrun
          cases hrun
          exact h.quiet h.rep rfl (DirsKnown.insert h.dirs fun hk => by cases hk)
    · cases hcache : (f.nameCache (parent, name)).bind f.inodes with
      | some info =>
          rw [hcache] at hrun
          cases hrun
          exact h
      | none =>
          rw [hcache] at hrun
          cases hdir : f.inodes parent with
          | none =>
              simp only [hdir] at hrun
              cases hrun
          | some dir =>
              simp only [hdir] at hrun
              obtain ⟨entries, f₁, hlist, hrun⟩ := of_bind_eq_ok hrun
              obtain ⟨w, hw, rfl⟩ := of_orReply hlist
              obtain ⟨hrep, rfl⟩ := of_listDir h.rep h.settled (h.dirs _ _ hdir (hp dir hdir)) hw
              cases hfind : ((entriesOf S.live T dir.anode).map Entry.toDirEntry).find?
                  fun e => nameEqCi e.name name with
              | none =>
                  rw [hfind] at hrun
                  cases hrun
              | some entry =>
                  rw [hfind] at hrun
                  cases hrun
                  exact h.quiet hrep rfl (DirsKnown.insert h.dirs
                    (known_of_entry h.settled (List.mem_of_find?_eq_some hfind)))

/-- Every child of a directory is remembered. -/
theorem Agrees.children (h : Agrees g f r S T) {d ino : ℕ} (l : List DirEntry) :
    ∀ f₁ : FsInner, (∀ e ∈ l, e ∈ (entriesOf S.live T d).map Entry.toDirEntry) → DirsKnown f₁ T →
      f₁.writeBufs = f.writeBufs → Rep g f₁.access S →
      Agrees g ((l.map fun e => makeAttr e ino).foldl (fun f c => insertInode c.1 c.2 f) f₁)
        r S T := by
  induction l with
  | nil => exact fun f₁ _ hknown hbufs hrep => h.quiet hrep hbufs hknown
  | cons e l ih =>
      intro f₁ hmem hknown hbufs hrep
      exact ih _ (fun x hx => hmem x (List.mem_cons_of_mem e hx))
        (hknown.insert (known_of_entry h.settled (hmem e List.mem_cons_self))) hbufs hrep

theorem agrees_readdir (h : Agrees g f r S T) {ino : ℕ} {list : List (ℕ × FileType × Name)}
    (hrun : Fuse.readdir ino f = .ok list f') : Agrees g f' r S T := by
  unfold Fuse.readdir at hrun
  obtain ⟨f₀, f₁, hget, hrun⟩ := of_bind_eq_ok hrun
  cases hget
  split at hrun
  · cases hrun
    exact h
  · cases hdir : f.inodes ino with
    | none =>
        rw [hdir] at hrun
        cases hrun
    | some dir =>
        simp only [hdir] at hrun
        split at hrun
        · cases hrun
        · rename_i hkind
          obtain ⟨entries, f₁, hlist, hrun⟩ := of_bind_eq_ok hrun
          obtain ⟨w, hw, rfl⟩ := of_orReply hlist
          obtain ⟨hrep, rfl⟩ := of_listDir h.rep h.settled
            (h.dirs _ _ hdir (not_not.mp hkind)) hw
          cases hrun
          exact h.children _ _ (fun _ hx => hx) h.dirs rfl hrep

/-! ## Files of the image -/

theorem below_of_isDirectory (h : S.Settled T) {p : ℕ} (hp : S.IsDirectory p) :
    (∃ k, Below (entriesOf S.live T) ANODE_ROOTDIR k p) ∧ kinds T p = some true := by
  induction hp with
  | root => exact ⟨⟨0, .self⟩, h.forest.root⟩
  | sub _ hlist he hdir ih =>
      obtain ⟨⟨k, hk⟩, hkind⟩ := ih
      obtain ⟨n, hn, hnd⟩ := Option.map_eq_some_iff.mp hkind
      rw [h.listEntries hn hnd (h.getChain hn)] at hlist
      cases hlist
      exact ⟨⟨k + 1, .entry hk he⟩, (h.forest.entry he).1.trans (congrArg some hdir)⟩

theorem isDirectory_of_below (h : S.Settled T) {k p : ℕ}
    (hp : Below (entriesOf S.live T) ANODE_ROOTDIR k p) (hkind : kinds T p = some true) :
    S.IsDirectory p := by
  induction hp with
  | self => exact .root
  | entry _ he ih =>
      have hdir := kinds_of_mem he
      obtain ⟨n, hn, hnd⟩ := Option.map_eq_some_iff.mp hdir
      exact .sub (ih hdir) (h.listEntries hn hnd (h.getChain hn)) he (h.isDir_of_kinds he hkind)

theorem hasFile_iff (h : S.Settled T) {e : Entry} : S.HasFile e ↔
    ∃ k p, Below (entriesOf S.live T) ANODE_ROOTDIR k p ∧ e ∈ entriesOf S.live T p ∧
      e.isDir = false := by
  constructor
  · rintro ⟨p, es, hp, hlist, he, hfile⟩
    obtain ⟨⟨k, hk⟩, hkind⟩ := below_of_isDirectory h hp
    obtain ⟨n, hn, hnd⟩ := Option.map_eq_some_iff.mp hkind
    rw [h.listEntries hn hnd (h.getChain hn)] at hlist
    cases hlist
    exact ⟨k, p, hk, he, hfile⟩
  · rintro ⟨k, p, hk, he, hfile⟩
    have hkind := kinds_of_mem he
    obtain ⟨n, hn, hnd⟩ := Option.map_eq_some_iff.mp hkind
    exact ⟨p, _, isDirectory_of_below h hk hkind, h.listEntries hn hnd (h.getChain hn), he, hfile⟩

theorem onImage_eq (h : S.Settled T) {p : ℕ} {e : Entry} (he : e ∈ entriesOf S.live T p)
    (hfile : e.isDir = false) : S.onImage e = .ok (contentsOf S T e) := by
  obtain ⟨n, hn, hnd⟩ := h.node he
  unfold Store.onImage Meta.readFileData
  rw [h.getChain hn, ok_bind, contentsOf_some hn]
  exact readData_eq (fun b hb => h.owned.dataBlock hn (hnd.trans hfile) hb) e.fileSize

/-- Two files under one inode number are one. -/
theorem file_inj (h : S.Settled T) {p q : ℕ} {x y : Entry} (hx : x ∈ entriesOf S.live T p)
    (hy : y ∈ entriesOf S.live T q)
    (hino : anodeToIno x.anode.toNat = anodeToIno y.anode.toNat) : p = q ∧ x = y :=
  h.entry_inj hx hy (UInt32.toNat_inj.mp (anodeToIno_inj hino))

/-! ## Requests that change one file -/

/-- Every file but the one with the inode number `ino` is as before, and every directory stays. -/
structure FilesKept (S S' : Store) (T T' : Owners) (ino : ℕ) : Prop where
  files : ∀ k q x, Below (entriesOf S'.live T') ANODE_ROOTDIR k q → x ∈ entriesOf S'.live T' q →
    x.isDir = false → anodeToIno x.anode.toNat ≠ ino →
    (∃ k', Below (entriesOf S.live T) ANODE_ROOTDIR k' q) ∧ x ∈ entriesOf S.live T q ∧
      contentsOf S' T' x = contentsOf S T x
  dirs : ∀ q, kinds T q = some true → kinds T' q = some true

theorem FilesKept.refl (S : Store) (T : Owners) (ino : ℕ) : FilesKept S S T T ino :=
  ⟨fun k _ _ hq hx _ _ => ⟨⟨k, hq⟩, hx, rfl⟩, fun _ h => h⟩

/-- The step of the invariant: one file may have changed, on the image or in its buffer. -/
theorem Agrees.changed (h : Agrees g f r S T) {r' : Reference} {ino : ℕ}
    (hkept : FilesKept S S' T T' ino) (hset : S'.Settled T') (hrep : Rep g f'.access S')
    (hdirs : DirsKnown f' T') (hbufs : ∀ i, i ≠ ino → f'.writeBufs i = f.writeBufs i)
    (hbytes : ∀ i, i ≠ ino → r'.bytes i = r.bytes i)
    (hself : ∀ k q x, Below (entriesOf S'.live T') ANODE_ROOTDIR k q → x ∈ entriesOf S'.live T' q →
      x.isDir = false → anodeToIno x.anode.toNat = ino → shown f' S' T' x = r'.bytes ino)
    (hclosed : ∀ i, r'.handles i = 0 → f'.writeBufs i = none) : Agrees g f' r' S' T' where
  rep := hrep
  settled := hset
  dirs := hdirs
  closed := hclosed
  bytes := by
    intro k q x hq hx hfile
    by_cases hino : anodeToIno x.anode.toNat = ino
    · rw [hino]
      exact hself k q x hq hx hfile hino
    · obtain ⟨⟨k', hq'⟩, hx', hsame⟩ := hkept.files k q x hq hx hfile hino
      have hshown : shown f' S' T' x = shown f S T x := by
        unfold shown
        rw [hbufs _ hino, hsame]
      rw [hbytes _ hino, hshown]
      exact h.bytes k' q x hq' hx' hfile

/-- A file opened for writing: its buffer is `buf`. -/
theorem Agrees.buffered (h : Agrees g f r S T) {r' : Reference} {ino p : ℕ} {name : Name}
    {buf : Bytes} (hrep : Rep g f'.access S) (hdirs : DirsKnown f' T)
    (hbufs : f'.writeBufs = Function.update f.writeBufs ino (some (p, name, buf)))
    (hbytes : ∀ i, i ≠ ino → r'.bytes i = r.bytes i)
    (hhandles : ∀ i, i ≠ ino → r'.handles i = r.handles i) (hopen : r'.handles ino ≠ 0)
    (hbuf : ∀ k q x, Below (entriesOf S.live T) ANODE_ROOTDIR k q → x ∈ entriesOf S.live T q →
      x.isDir = false → anodeToIno x.anode.toNat = ino → buf = r'.bytes ino) :
    Agrees g f' r' S T := by
  refine h.changed (.refl S T ino) h.settled hrep hdirs (fun i hi => ?_) hbytes ?_ fun i hi => ?_
  · rw [hbufs, Function.update_of_ne hi]
  · intro k q x hq hx hfile hino
    have hshown : shown f' S T x = buf := shown_buffered hino (hbufs ▸ Function.update_self ..)
    rw [hshown]
    exact hbuf k q x hq hx hfile hino
  · have hne : i ≠ ino := by
      rintro rfl
      exact hopen hi
    rw [hbufs, Function.update_of_ne hne]
    exact h.closed i ((hhandles i hne).symm.trans hi)

theorem agrees_write (h : Agrees g f r S T) {ino offset n : ℕ} {data : Bytes}
    (hrun : Fuse.write ino offset data f = .ok n f') :
    Agrees g f' (r.put ino (writeAt (r.bytes ino) offset data)) S T := by
  unfold Fuse.write at hrun
  obtain ⟨f₀, f₁, hget, hrun⟩ := of_bind_eq_ok hrun
  cases hget
  cases hbuf : f.writeBufs ino with
  | none =>
      rw [hbuf] at hrun
      cases hrun
  | some b =>
      obtain ⟨p, name, buf⟩ := b
      rw [hbuf] at hrun
      cases hrun
      have hdirs : DirsKnown (insertBuf ino (p, name, writeAt buf offset data) f) T := h.dirs
      refine h.buffered h.rep (hdirs.modifyAttr fun _ => rfl) rfl
        (fun i hi => Function.update_of_ne hi _ _) (fun _ _ => rfl) (fun hzero => ?_) ?_
      · rw [h.closed ino hzero] at hbuf
        cases hbuf
      · intro k q x hq hx hfile hino
        have hold := h.bytes k q x hq hx hfile
        rw [shown_buffered hino hbuf, hino] at hold
        rw [← hold]
        exact (Function.update_self ino _ r.bytes).symm

theorem resize_self (buf : Bytes) : resize buf buf.length = buf := by
  rw [resize, List.take_length, Nat.sub_self, List.replicate_zero, List.append_nil]

/-- The end of `setattr`: the attributes are replied. -/
theorem of_reply {f : FsInner} {ino : ℕ} {attr : FileAttr}
    (h : (match f.inodes ino with
      | none => throw (.reply .enoent)
      | some info => pure info.attr : FuseM FileAttr) f = .ok attr f') : f' = f := by
  cases hinfo : f.inodes ino with
  | none =>
      rw [hinfo] at h
      cases h
  | some info =>
      rw [hinfo] at h
      cases h
      rfl

theorem agrees_setattr (h : Agrees g f r S T) {ino size : ℕ} {attr : FileAttr}
    (hp : Proper f S (.setattr ino size)) (hrun : Fuse.setattr ino size f = .ok attr f') :
    Agrees g f' (r.put ino (resize (r.bytes ino) size)) S T := by
  generalize hput : r.put ino (resize (r.bytes ino) size) = r'
  have hself : r'.bytes ino = resize (r.bytes ino) size := hput ▸ Function.update_self ..
  have hother : ∀ i, i ≠ ino → r'.bytes i = r.bytes i := fun i hi =>
    hput ▸ Function.update_of_ne hi _ _
  have hhandles : r'.handles = r.handles := hput ▸ rfl
  have hdirs : DirsKnown (modifyAttr ino (fun attr => { attr with size := size }) f) T :=
    DirsKnown.modifyAttr h.dirs fun _ => rfl
  unfold Fuse.setattr at hrun
  obtain ⟨_, f₁, hmod, hrun⟩ := of_bind_eq_ok hrun
  cases hmod
  obtain ⟨_, f₁, hget, hrun⟩ := of_bind_eq_ok hrun
  cases hget
  have hbufs : (modifyAttr ino (fun attr => { attr with size := size }) f).writeBufs ino =
      f.writeBufs ino := rfl
  cases hbuf : f.writeBufs ino with
  | none =>
      simp only [hbufs, hbuf] at hrun
      obtain rfl := of_reply hrun
      refine h.changed (.refl S T ino) h.settled h.rep hdirs (fun _ _ => rfl) hother ?_ ?_
      · intro k q x hq hx hfile hino
        have hold := h.bytes k q x hq hx hfile
        obtain ⟨bytes, hbytes, hlen⟩ :=
          hp hbuf x ((hasFile_iff h.settled).mpr ⟨k, q, hq, hx, hfile⟩) hino
        rw [onImage_eq h.settled hx hfile] at hbytes
        cases hbytes
        rw [shown_unbuffered hino hbuf, hino] at hold
        refine (shown_unbuffered hino (hbufs.trans hbuf)).trans ?_
        rw [hself, ← hold, ← hlen]
        exact (resize_self _).symm
      · intro i hi
        exact h.closed i (hhandles ▸ hi)
  | some b =>
      obtain ⟨p, name, buf⟩ := b
      simp only [hbufs, hbuf] at hrun
      obtain ⟨_, f₁, hmod, hrun⟩ := of_bind_eq_ok hrun
      cases hmod
      obtain rfl := of_reply hrun
      refine h.buffered h.rep hdirs rfl hother (fun _ _ => congrFun hhandles _) (fun hzero => ?_) ?_
      · rw [h.closed ino (hhandles ▸ hzero)] at hbuf
        cases hbuf
      · intro k q x hq hx hfile hino
        have hold := h.bytes k q x hq hx hfile
        rw [shown_buffered hino hbuf, hino] at hold
        rw [hself, ← hold]

theorem of_readFileData (hrep : Rep g f.access S) {bytes : Bytes} {e : Entry}
    (he : S.onImage e = .ok bytes) {x : Except Error Bytes}
    (hrun : library (Writer.onVol (Volume.readFileData e.anode.toNat e.fileSize)) f = .ok x f') :
    x = .ok bytes ∧ ∃ w, Rep g w S ∧ f' = { f with access := w } := by
  have hsim := @Rep.onVol _ _ _ hrep _ _ _ _
    (fun m => m.readFileData S.geo S.data e.anode.toNat e.fileSize)
    (hrep.vol.readFileData e.anode.toNat e.fileSize)
  have hspec : Store.onDisk (fun m => m.readFileData S.geo S.data e.anode.toNat e.fileSize) S =
      .ok bytes S := by
    have hread : S.disk.readFileData S.geo S.data e.anode.toNat e.fileSize = .ok bytes := he
    have hlift : Store.onDisk (fun m => m.readFileData S.geo S.data e.anode.toNat e.fileSize) S =
      (liftM (S.disk.readFileData S.geo S.data e.anode.toNat e.fileSize) : StoreM Bytes) S := rfl
    rw [hlift, hread]
    rfl
  obtain ⟨_, w, hw, rfl, hrep'⟩ := hsim.ok hspec
  rcases of_library hrun with ⟨a, w', hm, rfl, rfl⟩ | ⟨err, w', hm, -, -⟩
  · rw [hw] at hm
    cases hm
    exact ⟨rfl, w, hrep', rfl⟩
  · rw [hw] at hm
    cases hm

/-- Nothing but a handle is new. -/
theorem Agrees.opened (h : Agrees g f r S T) (ino : ℕ) : Agrees g f (r.opened ino) S T where
  rep := h.rep
  settled := h.settled
  dirs := h.dirs
  bytes := h.bytes
  closed := by
    intro i hi
    by_cases hne : i = ino
    · rw [hne] at hi
      have hself : (r.opened ino).handles ino = r.handles ino + 1 := Function.update_self ..
      omega
    · have hother : (r.opened ino).handles i = r.handles i := Function.update_of_ne hne _ _
      exact h.closed i (hother ▸ hi)

theorem agrees_open (h : Agrees g f r S T) {ino : ℕ} {flags : OpenFlags}
    (hp : Proper f S (.open ino flags)) (hrun : Fuse.open ino flags f = .ok () f') :
    Agrees g f' (r.step (.open ino flags) none) S T := by
  unfold Fuse.open at hrun
  obtain ⟨f₀, f₁, hget, hrun⟩ := of_bind_eq_ok hrun
  cases hget
  cases hinfo : f.inodes ino with
  | none =>
      rw [hinfo] at hrun
      cases hrun
  | some info =>
      simp only [hinfo] at hrun
      split at hrun
      · cases hrun
      · split at hrun
        · rename_i hwrite
          have hclosed : (r.opened ino).handles ino ≠ 0 := by
            have hself : (r.opened ino).handles ino = r.handles ino + 1 := Function.update_self ..
            omega
          have hother : ∀ i, i ≠ ino → (r.opened ino).handles i = r.handles i := fun i hi =>
            Function.update_of_ne hi _ _
          cases htrunc : flags.trunc with
          | true =>
              simp only [htrunc, if_true] at hrun
              cases hrun
              have hstep : r.step (.open ino flags) none = (r.put ino []).opened ino := by
                unfold Reference.step
                simp only [htrunc, if_true]
              rw [hstep]
              exact h.buffered h.rep h.dirs rfl (fun i hi => Function.update_of_ne hi _ _) hother
                hclosed fun _ _ _ _ _ _ _ => (Function.update_self ino _ r.bytes).symm
          | false =>
              simp only [htrunc, Bool.false_eq_true, if_false] at hrun
              obtain ⟨e, info', he, hinfo', hino, hanode, hsize, hsaved⟩ := hp hwrite htrunc
              rw [hinfo] at hinfo'
              cases hinfo'
              obtain ⟨k, p, hp, he, hfile⟩ := (hasFile_iff h.settled).mp he
              rw [hanode, hsize] at hrun
              obtain ⟨x, f₁, hread, hrun⟩ := of_bind_eq_ok hrun
              obtain ⟨rfl, w, hrep, rfl⟩ := of_readFileData h.rep (onImage_eq h.settled he hfile) hread
              cases hrun
              have hstep : r.step (.open ino flags) none = r.opened ino := by
                unfold Reference.step
                simp only [htrunc, Bool.false_eq_true, if_false]
              rw [hstep]
              refine h.buffered hrep h.dirs rfl (fun _ _ => rfl) hother hclosed ?_
              intro _ q y hq hy hyfile hyino
              obtain ⟨rfl, rfl⟩ := file_inj h.settled hy he (hyino.trans hino.symm)
              have hold := h.bytes k _ _ hp he hfile
              rw [hyino] at hold
              cases hbuf : f.writeBufs ino with
              | none => exact (shown_unbuffered hyino hbuf).symm.trans hold
              | some b =>
                  have hsaved := hsaved _ _ _ hbuf
                  rw [onImage_eq h.settled he hfile] at hsaved
                  exact (Except.ok.inj hsaved).trans ((shown_buffered hyino hbuf).symm.trans hold)
        · rename_i hwrite
          cases hrun
          have htrunc : flags.trunc = false := by
            unfold OpenFlags.isWrite at hwrite
            simp only [Bool.or_eq_true, not_or, Bool.not_eq_true] at hwrite
            exact hwrite.1.2
          have hstep : r.step (.open ino flags) none = r.opened ino := by
            unfold Reference.step
            simp only [htrunc, Bool.false_eq_true, if_false]
          rw [hstep]
          exact h.opened ino

/-- Following a chain asks the device only, whatever anode it starts with. -/
theorem same_of_getAnodeChain {v : Volume} {m : Meta} {data : ℕ → Sector} (h : VolRep v g m data)
    (nr : ℕ) : (∃ chain v', Volume.getAnodeChain nr v = .ok chain v' ∧ v.Same g v') ∨
      ∃ e v', Volume.getAnodeChain nr v = .error e v' ∧ v.Same g v' := by
  have hread := h.getAnodeChain nr v h.refl
  rcases hm : m.getChain nr with (e | _) | c <;> rw [hm] at hread
  · obtain ⟨v', hv', hs⟩ := hread
    exact Or.inr ⟨e, v', hv', hs⟩
  · exact absurd hm (Meta.getChainLoop_not_stuck _ _ _)
  · obtain ⟨chain, v', hv', -, hs⟩ := hread
    exact Or.inl ⟨chain, v', hv', hs⟩

/-- Reading a range of a file asks the device only. -/
theorem rep_of_readFileRange {w w' : Writer} (hrep : Rep g w S) {anode size offset len : ℕ}
    {bytes : Bytes} (hrun : Writer.onVol (Volume.readFileRange anode size offset len) w =
      .ok bytes w') : Rep g w' S := by
  obtain ⟨v, hv, rfl⟩ : ∃ v, Volume.readFileRange anode size offset len w.vol = .ok bytes v ∧
      w' = { w with vol := v } := by
    unfold Writer.onVol zoom Writer.setVol at hrun
    cases hm : Volume.readFileRange anode size offset len w.vol with
    | ok a v =>
        simp only [hm] at hrun
        cases hrun
        exact ⟨v, rfl, rfl⟩
    | error e v =>
        simp only [hm] at hrun
        cases hrun
  refine hrep.sameVol ?_
  unfold Volume.readFileRange at hv
  split at hv
  · cases hv
    exact hrep.vol.refl
  · obtain ⟨chain, v₁, hchain, hv⟩ := of_bind_eq_ok hv
    obtain ⟨_, _, hget, hv⟩ := of_bind_eq_ok hv
    cases hget
    have hsame : w.vol.Same S.geo v₁ := by
      rcases same_of_getAnodeChain hrep.vol anode with ⟨c, v₂, h₂, hs⟩ | ⟨e, v₂, h₂, -⟩
      · rw [hchain] at h₂
        cases h₂
        exact hs
      · rw [hchain] at h₂
        cases h₂
    cases hr : Volume.readChainRange v₁.dev offset (min (offset + len) size) chain 0 with
    | ok b =>
        rw [hr] at hv
        cases hv
        exact hsame
    | error e =>
        rw [hr] at hv
        cases hv

theorem agrees_read (h : Agrees g f r S T) {ino offset size : ℕ} {bytes : Bytes}
    (hrun : Fuse.read ino offset size f = .ok bytes f') : Agrees g f' r S T := by
  unfold Fuse.read at hrun
  obtain ⟨f₀, f₁, hget, hrun⟩ := of_bind_eq_ok hrun
  cases hget
  cases hinfo : f.inodes ino with
  | none =>
      rw [hinfo] at hrun
      cases hrun
  | some info =>
      simp only [hinfo] at hrun
      obtain ⟨w, hw, rfl⟩ := of_orReply hrun
      exact h.quiet (rep_of_readFileRange h.rep hw) rfl h.dirs

/-! ## Calls that change one file -/

/-- Directories with entries for the same objects lead to the same places. -/
theorem below_of_anodes {L L' : ℕ → List Entry} {a k q : ℕ}
    (hsub : ∀ p y, y ∈ L p → ∃ y' ∈ L' p, y'.anode = y.anode) (h : Below L a k q) :
    Below L' a k q := by
  induction h with
  | self => exact .self
  | entry _ he ih =>
      obtain ⟨y', hy', hanode⟩ := hsub _ _ he
      rw [← hanode]
      exact .entry ih hy'

section Rewritten

variable {p : ℕ} {e : Entry} {m : Node} {now : Datestamp} {data : Bytes}

theorem kinds_rewritten (hw : Rewritten S S' T p e m now data) (h : S.Settled T) :
    kinds (Function.update T e.anode.toNat (some m)) = kinds T := by
  obtain ⟨l₁, l₂, hold, -⟩ := hw.entries
  have hmem : e ∈ entriesOf S.live T p := hold ▸ Forest.mem_middle.mpr (Or.inl rfl)
  funext q
  by_cases hq : q = e.anode.toNat
  · rw [hq, (h.forest.entry hmem).1, kinds, Function.update_self, hw.entry]
    exact congrArg some hw.isDir
  · rw [kinds, Function.update_of_ne hq]
    rfl

theorem mem_rewritten (hw : Rewritten S S' T p e m now data) {q : ℕ} {x : Entry}
    (hx : x ∈ entriesOf S'.live (Function.update T e.anode.toNat (some m)) q) :
    (q = p ∧ x = e.setSize data.length now) ∨ x ∈ entriesOf S.live T q := by
  by_cases hq : q = p
  · subst hq
    obtain ⟨l₁, l₂, hold, hnew⟩ := hw.entries
    rw [hnew] at hx
    rcases Forest.mem_middle.mp hx with hx | hx
    · exact Or.inl ⟨rfl, hx⟩
    · exact Or.inr (hold ▸ Forest.mem_middle.mpr (Or.inr hx))
  · exact Or.inr (hw.entries_other q hq ▸ hx)

theorem mem_setSize (hw : Rewritten S S' T p e m now data) : e.setSize data.length now ∈
    entriesOf S'.live (Function.update T e.anode.toNat (some m)) p := by
  obtain ⟨l₁, l₂, -, hnew⟩ := hw.entries
  exact hnew ▸ Forest.mem_middle.mpr (Or.inl rfl)

theorem filesKept_rewritten (hw : Rewritten S S' T p e m now data) (h : S.Settled T) :
    FilesKept S S' T (Function.update T e.anode.toNat (some m)) (anodeToIno e.anode.toNat) := by
  obtain ⟨l₁, l₂, hold, -⟩ := hw.entries
  have hmem : e ∈ entriesOf S.live T p := hold ▸ Forest.mem_middle.mpr (Or.inl rfl)
  refine ⟨fun k q x hq hx hfile hino => ⟨⟨k, below_of_anodes (fun d y hy => ?_) hq⟩, ?_, ?_⟩,
    fun q hq => kinds_rewritten hw h ▸ hq⟩
  · rcases mem_rewritten hw hy with ⟨rfl, rfl⟩ | hy
    · exact ⟨e, hmem, rfl⟩
    · exact ⟨y, hy, rfl⟩
  · rcases mem_rewritten hw hx with ⟨-, rfl⟩ | hx
    · exact absurd rfl hino
    · exact hx
  · exact hw.contents_other fun heq => hino (congrArg (anodeToIno ·.toNat) heq)

end Rewritten

theorem agrees_release (h : Agrees g f r S T) {ino : ℕ} (hp : Proper f S (.release ino))
    (hrun : Fuse.release ino f = .ok () f') : ∃ S' T', Agrees g f' (r.released ino) S' T' := by
  -- no buffer is left for the inode
  have hclosed : ∀ f₁ : FsInner, f₁.writeBufs = Function.update f.writeBufs ino none →
      ∀ i, (r.released ino).handles i = 0 → f₁.writeBufs i = none := by
    intro f₁ hbufs i hi
    rw [hbufs]
    by_cases hne : i = ino
    · rw [hne, Function.update_self]
    · rw [Function.update_of_ne hne]
      have hother : (r.released ino).handles i = r.handles i := Function.update_of_ne hne _ _
      exact h.closed i (hother ▸ hi)
  have hbufs : ∀ i, i ≠ ino → Function.update f.writeBufs ino none i = f.writeBufs i := fun i hi =>
    Function.update_of_ne hi _ _
  unfold Fuse.release at hrun
  obtain ⟨f₀, f₁, hget, hrun⟩ := of_bind_eq_ok hrun
  cases hget
  obtain ⟨_, f₁, hmod, hrun⟩ := of_bind_eq_ok hrun
  cases hmod
  cases hbuf : f.writeBufs ino with
  | none =>
      rw [hbuf] at hrun
      cases hrun
      refine ⟨S, T, h.changed (.refl S T ino) h.settled h.rep h.dirs hbufs (fun _ _ => rfl) ?_
        (hclosed _ rfl)⟩
      intro k q x hq hx hfile hino
      have hold := h.bytes k q x hq hx hfile
      rw [shown_unbuffered hino hbuf, hino] at hold
      exact (shown_unbuffered hino (Function.update_self ..)).trans hold
  | some b =>
      obtain ⟨p, name, data⟩ := b
      obtain ⟨hempty, hstore⟩ := hp p name data hbuf
      simp only [hbuf] at hrun
      split at hrun
      · rename_i hdata
        cases hrun
        refine ⟨S, T, h.changed (.refl S T ino) h.settled h.rep h.dirs hbufs (fun _ _ => rfl) ?_
          (hclosed _ rfl)⟩
        intro k q x hq hx hfile hino
        have hold := h.bytes k q x hq hx hfile
        rw [shown_buffered hino hbuf, hino, hdata] at hold
        have hread := hempty hdata x ((hasFile_iff h.settled).mpr ⟨k, q, hq, hx, hfile⟩) hino
        rw [onImage_eq h.settled hx hfile] at hread
        exact (shown_unbuffered hino (Function.update_self ..)).trans
          ((Except.ok.inj hread).trans hold)
      · rename_i hdata
        obtain ⟨e, info, hdir, hfound, hplain, hinfo, hino, hanode, hne, hfit, hsize, hroom⟩ :=
          hstore hdata
        obtain ⟨⟨k, hk⟩, hkind⟩ := below_of_isDirectory h.settled hdir
        obtain ⟨n, hn, hnd⟩ := Option.map_eq_some_iff.mp hkind
        have hfind := h.settled.found hn hnd hfound
        have he := List.mem_of_find?_eq_some hfind
        obtain ⟨m, hm, -⟩ := h.settled.node he
        have hold := h.bytes k p e hk he hplain.isDir
        rw [shown_buffered hino hbuf, hino] at hold
        simp only [hinfo, Option.elim_some, if_neg hne] at hrun
        obtain ⟨x, f₁, hlib, hrun⟩ := of_bind_eq_ok hrun
        rcases of_library hlib with ⟨_, w, hw, rfl, rfl⟩ | ⟨err, w, -, rfl, -⟩
        · cases hrun
          rw [hanode] at hw
          have hpos : 0 < Writer.blocksFor data.length % U32 := by
            rw [Nat.mod_eq_of_lt hfit]
            exact Nat.lt_of_lt_of_le Nat.zero_lt_one (le_max_right _ _)
          rw [h.settled.blocksOf hm, ← Nat.mod_eq_of_lt hfit] at hroom
          obtain ⟨S', -, hrep, m', now, hw'⟩ := (h.rep.overwriteFileIn p name e.anode.toNat
            data).follow (post_overwriteFileIn h.settled hn hnd hfind hplain.isDir hm hpos hroom) hw
          have hkept := filesKept_rewritten hw' h.settled
          rw [hino] at hkept
          refine ⟨S', _, h.changed hkept hw'.settled hrep ?_ hbufs (fun _ _ => rfl) ?_
            (hclosed _ rfl)⟩
          · have hdirs : DirsKnown { removeBuf ino f with access := w }
              (Function.update T e.anode.toNat (some m')) := DirsKnown.mono h.dirs hkept.dirs
            exact hdirs.modifyAttr fun _ => rfl
          · intro _ q y hq hy hfile hyino
            obtain ⟨rfl, rfl⟩ := file_inj hw'.settled hy (mem_setSize hw') (hyino.trans hino.symm)
            have hnone : (removeBuf ino f).writeBufs ino = none := Function.update_self ..
            exact (shown_unbuffered hyino hnone).trans
              ((hw'.contents hfit (hsize now)).trans hold)
        · cases hrun

/-! ## Creating a file -/

section Entered

variable {p nr : ℕ} {e : Entry} {m : Node} {data : Bytes}

theorem mem_entered (hent : Entered S S' T T' p nr m e) {q : ℕ} {x : Entry}
    (hx : x ∈ entriesOf S'.live T' q) : (q = p ∧ x = e) ∨ x ∈ entriesOf S.live T q := by
  by_cases hq : q = p
  · subst hq
    obtain ⟨l₁, l₂, hold, hnew⟩ := hent.entries
    rw [hnew] at hx
    rcases Forest.mem_middle.mp hx with hx | hx
    · exact Or.inl ⟨rfl, hx⟩
    · exact Or.inr (hold ▸ hx)
  · exact Or.inr (hent.entries_other q hq ▸ hx)

/-- A new file has no entries. -/
theorem ne_of_mem_entered (hent : Entered S S' T T' p nr m e) (hm : m.isDir = false) {q : ℕ}
    {x : Entry} (hx : x ∈ entriesOf S'.live T' q) : q ≠ nr := by
  rintro rfl
  have hkind := kinds_of_mem hx
  rw [kinds, hent.node, Option.map_some, hm] at hkind
  cases hkind

theorem below_entered (hent : Entered S S' T T' p nr m e) (hm : m.isDir = false) {k q : ℕ}
    (hq : Below (entriesOf S'.live T') ANODE_ROOTDIR k q) :
    q = nr ∨ Below (entriesOf S.live T) ANODE_ROOTDIR k q := by
  induction hq with
  | self => exact Or.inr .self
  | entry _ hy ih =>
      rcases ih with hd | hd
      · exact absurd hd (ne_of_mem_entered hent hm hy)
      · rcases mem_entered hent hy with ⟨-, rfl⟩ | hy
        · exact Or.inl hent.anode
        · exact Or.inr (.entry hd hy)

theorem kinds_entered (hent : Entered S S' T T' p nr m e) {q : ℕ} (hq : kinds T q = some true) :
    kinds T' q = some true := by
  by_cases hp : q = p
  · exact hp ▸ hent.parent
  · by_cases hnr : q = nr
    · rw [hnr, kinds, hent.new] at hq
      cases hq
    · rw [kinds, hent.others q hp hnr]
      exact hq

theorem filesKept_entered (hent : Entered S S' T T' p nr m e) (hst : StoredAs S S' m data)
    (h : S.Settled T) : FilesKept S S' T T' (anodeToIno e.anode.toNat) := by
  constructor
  case files =>
    intro k q x hq hx hfile hino
    have hold : x ∈ entriesOf S.live T q := by
      rcases mem_entered hent hx with ⟨-, rfl⟩ | hx
      · exact absurd rfl hino
      · exact hx
    have hnr : x.anode.toNat ≠ nr := fun heq => hino (by rw [heq, hent.anode])
    have hp : x.anode.toNat ≠ p := by
      intro heq
      have hkind := (h.forest.entry hold).1
      rw [heq, hent.dir, hfile] at hkind
      cases hkind
    have howner := hent.others _ hp hnr
    refine ⟨⟨k, (below_entered hent hst.isDir hq).resolve_left
      (ne_of_mem_entered hent hst.isDir hx)⟩, hold, contentsOf_congr howner fun n hn => ?_⟩
    exact hent.settled.owned.data_other hent.node hst.data (howner.trans hn) hnr
  case dirs => exact fun q hq => kinds_entered hent hq

end Entered

/-- The entry that is found after a file was written. -/
theorem found_rewritten {p : ℕ} {e : Entry} {m : Node} {now : Datestamp} {name : Name}
    {data : Bytes} (hw : Rewritten S S' T p e m now data) (h : S.Settled T)
    (he : (entriesOf S.live T p).find? (matchesName name) = some e) :
    (entriesOf S'.live (Function.update T e.anode.toNat (some m)) p).find? (matchesName name) =
      some (e.setSize data.length now) := by
  obtain ⟨l₁, l₂, hold, hnew⟩ := hw.entries
  have hmatch : matchesName name (e.setSize data.length now) = true := by
    have hold := List.find?_some he
    exact hold
  have hfirst : l₁.find? (matchesName name) = none := by
    cases hl : l₁.find? (matchesName name) with
    | none => rfl
    | some x =>
        rw [hold, List.find?_append, hl] at he
        cases he
        have hnodup := h.forest.nodup p
        rw [hold, List.map_append, List.nodup_append] at hnodup
        exact absurd rfl (hnodup.2.2 _ (List.mem_map_of_mem (List.mem_of_find?_eq_some hl)) _
          (List.mem_map_of_mem List.mem_cons_self))
  rw [hnew, List.find?_append, hfirst, Option.none_or, List.find?_cons_of_pos hmatch]

theorem found_entered {p nr : ℕ} {e y : Entry} {m : Node} {name : Name}
    (hent : Entered S S' T T' p nr m e)
    (hno : (entriesOf S.live T p).find? (matchesName name) = none)
    (hy : (entriesOf S'.live T' p).find? (matchesName name) = some y) : y = e := by
  rcases mem_entered hent (List.mem_of_find?_eq_some hy) with ⟨-, rfl⟩ | hold
  · rfl
  · exact absurd (List.find?_some hy) (List.find?_eq_none.mp hno y hold)

theorem of_directoryAnode {parent anode : ℕ} (hrun : directoryAnode parent f = .ok anode f') :
    f' = f ∧ ∃ info, f.inodes parent = some info ∧ info.attr.kind = .directory ∧
      anode = info.anode := by
  unfold directoryAnode at hrun
  obtain ⟨f₀, f₁, hget, hrun⟩ := of_bind_eq_ok hrun
  cases hget
  cases hinfo : f.inodes parent with
  | none =>
      rw [hinfo] at hrun
      cases hrun
  | some info =>
      simp only [hinfo] at hrun
      split at hrun
      · rename_i hkind
        cases hrun
        exact ⟨rfl, info, rfl, hkind, rfl⟩
      · cases hrun

/-- The new entry is the first one of the directory with the name. -/
theorem of_findNew {d : ℕ} {name : Name} {entry : DirEntry} (hrep : Rep g f.access S)
    (h : S.Settled T) (hd : kinds T d = some true) (hrun : findNew d name f = .ok entry f') :
    ∃ w y, Rep g w S ∧ f' = { f with access := w } ∧
      (entriesOf S.live T d).find? (matchesName name) = some y ∧ entry = y.toDirEntry := by
  unfold findNew at hrun
  obtain ⟨entries, f₁, hlist, hrun⟩ := of_bind_eq_ok hrun
  obtain ⟨w, hw, rfl⟩ := of_orReply hlist
  obtain ⟨hrep', rfl⟩ := of_listDir hrep h hd hw
  have hfind : ((entriesOf S.live T d).map Entry.toDirEntry).find? (fun e => nameEqCi e.name name) =
      ((entriesOf S.live T d).find? (matchesName name)).map Entry.toDirEntry :=
    Holds.find?_map_toDirEntry _ _
  cases hy : (entriesOf S.live T d).find? (matchesName name) with
  | none =>
      simp only [hfind, hy, Option.map_none] at hrun
      cases hrun
  | some y =>
      simp only [hfind, hy, Option.map_some] at hrun
      cases hrun
      exact ⟨w, y, hrep', rfl, rfl, rfl⟩

/-- Writing an empty file: over a plain one, or as a new one. -/
theorem of_writeEmpty {p : ℕ} {name : Name} {w w' : Writer} (hrep : Rep g w S) (h : S.Settled T)
    (hkind : kinds T p = some true) (hcan : S.CanWrite p name [])
    (hrun : Writer.writeFileIn p name [] w = .ok () w') : ∃ S', Rep g w' S' ∧
      ((∃ e m now, S.found p name = some e ∧ Rewritten S S' T p e m now []) ∨
        ((∀ e, S.found p name = some e → ¬ e.IsPlain) ∧ ∃ T' nr m now,
          Entered S S' T T' p nr m (Entry.build now name ST_FILE nr 0 0) ∧ StoredAs S S' m [])) := by
  obtain ⟨n, hn, hnd⟩ := Option.map_eq_some_iff.mp hkind
  obtain ⟨S', -, hrep', hres⟩ := (hrep.writeFileIn p name []).follow
    (@post_writeFileIn _ _ _ _ name [] h hn hnd (fun e m he hplain hm => by
      have hover := hcan.overwrite e he hplain
      rw [h.blocksOf hm] at hover
      exact hover) fun hno => by
      obtain ⟨k, hroom, hk⟩ := (hcan.create hno).room h hn
      exact ⟨k, hroom, fun now nr hspace => hk (size_build .. ▸ hspace)⟩) hrun
  rcases hres with ⟨e, m, now, he, -, hw⟩ | hnew
  · exact ⟨S', hrep', Or.inl ⟨e, m, now, he, hw⟩⟩
  · exact ⟨S', hrep', Or.inr hnew⟩

/-- Writing an empty file, and the entry that is found then. -/
theorem of_writeFileIn {p : ℕ} {name : Name} {w w' : Writer} (hrep : Rep g w S) (h : S.Settled T)
    (hkind : kinds T p = some true) (hcan : S.CanWrite p name [])
    (hplain : ∀ e, S.found p name = some e → e.IsPlain)
    (hrun : Writer.writeFileIn p name [] w = .ok () w') :
    ∃ S' T' y, Rep g w' S' ∧ S'.Settled T' ∧ FilesKept S S' T T' (anodeToIno y.anode.toNat) ∧
      ∀ x, (entriesOf S'.live T' p).find? (matchesName name) = some x → x = y := by
  obtain ⟨n, hn, hnd⟩ := Option.map_eq_some_iff.mp hkind
  obtain ⟨S', hrep', ⟨e, m, now, he, hw⟩ | ⟨hno, T', nr, m, now, hent, hst⟩⟩ :=
    of_writeEmpty hrep h hkind hcan hrun
  · refine ⟨S', _, e.setSize 0 now, hrep', hw.settled, filesKept_rewritten hw h, fun x hx => ?_⟩
    rw [found_rewritten hw h (h.found hn hnd he)] at hx
    exact (Option.some.inj hx).symm
  · refine ⟨S', T', _, hrep', hent.settled, filesKept_entered hent hst h, fun x hx => ?_⟩
    refine found_entered hent ?_ hx
    rw [← h.found_eq hn hnd]
    exact Option.eq_none_iff_forall_ne_some.mpr fun e he => hno e he (hplain e he)

theorem agrees_create (h : Agrees g f r S T) {parent : ℕ} {name : Name} {attr : FileAttr}
    (hp : Proper f S (.create parent name)) (hrun : Fuse.create parent name f = .ok attr f') :
    ∃ S' T', Agrees g f' (r.step (.create parent name) (some attr)) S' T' := by
  unfold Fuse.create at hrun
  obtain ⟨d, f₁, hdir, hrun⟩ := of_bind_eq_ok hrun
  obtain ⟨rfl, info, hinfo, hkind, rfl⟩ := of_directoryAnode hdir
  obtain ⟨_, f₁, hwrite, hrun⟩ := of_bind_eq_ok hrun
  obtain ⟨w, hw, rfl⟩ := of_orReply hwrite
  obtain ⟨entry, f₂, hnew, hrun⟩ := of_bind_eq_ok hrun
  obtain ⟨hcan, hplain⟩ := hp info hinfo
  have hd := h.dirs _ _ hinfo hkind
  obtain ⟨S', T', y, hrep, hset, hkept, hfound⟩ :=
    of_writeFileIn h.rep h.settled hd hcan hplain hw
  obtain ⟨w', x, hrep', rfl, hx, rfl⟩ := of_findNew hrep hset (hkept.dirs _ hd) hnew
  obtain rfl := hfound x hx
  cases hrun
  generalize hino : anodeToIno x.anode.toNat = ino at hkept
  have hself : (r.step (.create parent name) (some (makeAttr x.toDirEntry parent).2.attr)).bytes ino =
      [] := hino ▸ Function.update_self ..
  refine ⟨S', T', h.changed hkept hset hrep' ?_ (fun i hi => ?_) (fun i hi => ?_) ?_ fun i hi => ?_⟩
  · have hdirs : DirsKnown { f₁ with access := w' } T' := DirsKnown.mono h.dirs hkept.dirs
    exact hdirs.insert (known_of_entry hset
      (List.mem_map_of_mem (List.mem_of_find?_eq_some hx)))
  · exact Function.update_of_ne (hino ▸ hi) _ _
  · exact Function.update_of_ne (hino ▸ hi) _ _
  · intro _ _ z _ _ _ hz
    exact (shown_buffered (hz.trans hino.symm) (Function.update_self ..)).trans hself.symm
  · by_cases hne : i = anodeToIno x.anode.toNat
    · have hopen : ((r.put (anodeToIno x.anode.toNat) []).opened
          (anodeToIno x.anode.toNat)).handles (anodeToIno x.anode.toNat) =
          r.handles (anodeToIno x.anode.toNat) + 1 := Function.update_self ..
      rw [hne] at hi
      exact absurd (hopen.symm.trans hi) (Nat.succ_ne_zero _)
    · have hhandles : (r.step (.create parent name)
          (some (makeAttr x.toDirEntry parent).2.attr)).handles i = r.handles i :=
        Function.update_of_ne hne _ _
      exact (Function.update_of_ne hne _ _).trans (h.closed i (hhandles ▸ hi))

/-! ## Runs -/

/-- One request. -/
theorem Agrees.step (h : Agrees g f r S T) {q : Request} {reply : Option FileAttr}
    (hp : Proper f S q) (hrun : q.handle f = .ok reply f') :
    ∃ S' T', Agrees g f' (r.step q reply) S' T' := by
  cases q with
  | lookup parent name =>
      obtain ⟨attr, f₁, hrun, hend⟩ := of_bind_eq_ok hrun
      cases hend
      exact ⟨S, T, agrees_lookup h hp hrun⟩
  | readdir ino =>
      obtain ⟨list, f₁, hrun, hend⟩ := of_bind_eq_ok hrun
      cases hend
      exact ⟨S, T, agrees_readdir h hrun⟩
  | «open» ino flags =>
      obtain ⟨_, f₁, hrun, hend⟩ := of_bind_eq_ok hrun
      cases hend
      exact ⟨S, T, agrees_open h hp hrun⟩
  | create parent name =>
      obtain ⟨attr, f₁, hrun, hend⟩ := of_bind_eq_ok hrun
      cases hend
      exact agrees_create h hp hrun
  | write ino offset data =>
      obtain ⟨n, f₁, hrun, hend⟩ := of_bind_eq_ok hrun
      cases hend
      exact ⟨S, T, agrees_write h hrun⟩
  | setattr ino size =>
      obtain ⟨attr, f₁, hrun, hend⟩ := of_bind_eq_ok hrun
      cases hend
      exact ⟨S, T, agrees_setattr h hp hrun⟩
  | read ino offset size =>
      obtain ⟨bytes, f₁, hrun, hend⟩ := of_bind_eq_ok hrun
      cases hend
      exact ⟨S, T, agrees_read h hrun⟩
  | release ino =>
      obtain ⟨_, f₁, hrun, hend⟩ := of_bind_eq_ok hrun
      cases hend
      exact agrees_release h hp hrun

/-- Every run of requests. -/
theorem Agrees.serve (qs : List Request) : ∀ {f : FsInner} {r : Reference} {S : Store} {T : Owners},
    Agrees g f r S T → Meets g qs f → ∀ {f' r'}, Fuse.serve qs f r = some (f', r') →
      ∃ S' T', Agrees g f' r' S' T' := by
  induction qs with
  | nil =>
      intro f r S T h _ f' r' hrun
      cases hrun
      exact ⟨S, T, h⟩
  | cons q qs ih =>
      intro f r S T h hmeets f' r' hrun
      unfold Fuse.serve at hrun
      cases hq : q.handle f with
      | error e f₁ =>
          rw [hq] at hrun
          cases hrun
      | ok reply f₁ =>
          rw [hq] at hrun
          obtain ⟨S₁, T₁, h₁⟩ := h.step (hmeets.1 S T h.rep h.settled) hq
          exact ih h₁ (hmeets.2 reply f₁ hq) hrun

/-! ## Mounting -/

/-- A volume without deldir has no deleted files. -/
theorem rebuildDeldir_run (hrep : Rep g f.access S) : rebuildDeldir f = .ok ()
    { f with
      inodes := fun ino => if ino ∈ f.deldir.map DeldirEntry.ino then none else f.inodes ino
      deldir := [] } := by
  have hvol : Volume.listDeldir f.access.vol = .ok [] f.access.vol := by
    unfold Volume.listDeldir
    refine (bind_of_ok rfl).trans ?_
    rw [if_pos hrep.vol.rb.deldir]
    rfl
  have hlib : library (Writer.onVol Volume.listDeldir) f = .ok (.ok []) f := by
    unfold library Writer.onVol zoom Writer.setVol
    simp only [hvol]
  exact (bind_of_ok hlib).trans rfl

/-- Mounting asks the volume for nothing; only the root directory is known. -/
theorem mount_spec {w : Writer} (hrep : Rep g w S) : (mount w).access = w ∧
    (mount w).writeBufs = (fun _ => none) ∧ (mount w).nameCache = (fun _ => none) ∧
      ∀ ino info, (mount w).inodes ino = some info →
        info.anode = ANODE_ROOTDIR ∧ ino = FUSE_ROOT_INO ∧ info.attr.ino = ino := by
  dsimp only [mount]
  rw [@rebuildDeldir_run g _ S hrep]
  refine ⟨rfl, rfl, rfl, fun ino info hinfo => ?_⟩
  change (if ino ∈ [] then none else Function.update (fun _ => none) FUSE_ROOT_INO _ ino) =
    some info at hinfo
  rw [if_neg List.not_mem_nil] at hinfo
  by_cases hino : ino = FUSE_ROOT_INO
  · rw [hino, Function.update_self] at hinfo
    cases hinfo
    exact ⟨rfl, hino, hino.symm⟩
  · rw [Function.update_of_ne hino] at hinfo
    cases hinfo

/-- The root directory is known, and no file is open. -/
theorem agrees_mount {w : Writer} (hrep : Rep g w S) (h : S.Settled T)
    (hstored : ∀ k p x, Below (entriesOf S.live T) ANODE_ROOTDIR k p → x ∈ entriesOf S.live T p →
      x.isDir = false → contentsOf S T x = r.bytes (anodeToIno x.anode.toNat)) :
    Agrees g (mount w) r S T := by
  obtain ⟨haccess, hbufs, -, hinodes⟩ := mount_spec hrep
  refine
    { rep := haccess.symm ▸ hrep
      settled := h
      dirs := fun ino info hinfo _ => (hinodes ino info hinfo).1 ▸ h.forest.root
      bytes := fun k p x hp hx hfile => ?_
      closed := fun ino _ => congrFun hbufs ino }
  exact (shown_unbuffered rfl (congrFun hbufs _)).trans (hstored k p x hp hx hfile)

end Handlers

/-! ## The files on the image -/

/-- The files without open handles hold on the image what the reference says. -/
def Stored (v : Volume) (r : Reference) : Prop :=
  ∀ p e, HasEntry v p e → e.isDir = false → r.handles (anodeToIno e.anode) = 0 →
    v.answer (Volume.readFileData e.anode e.fileSize) = .ok (r.bytes (anodeToIno e.anode))

section Image

variable {g : Geometry} {S : Store} {T : Owners} {w : Writer} {v : Volume}

/-- The file of an entry, read from the device. -/
theorem answer_file (hrep : Rep g w S) (h : S.Settled T) (hv : Volume.fromDevice w.vol.dev = .ok v)
    {p : ℕ} {e : Entry} (he : e ∈ entriesOf S.live T p) (hfile : e.isDir = false) :
    v.answer (Volume.readFileData e.anode.toNat e.fileSize) = .ok (contentsOf S T e) := by
  obtain ⟨n, hn, hnd⟩ := h.node he
  have hvol := hrep.volRep hv
  obtain rfl := hrep.geo
  rw [h.read_eq hvol hn (hnd.trans hfile), contentsOf_some hn]

theorem Agrees.stored {f : FsInner} {r : Reference} (h : Agrees g f r S T)
    (hv : Volume.fromDevice f.access.vol.dev = .ok v) : Stored v r := by
  intro p x hx hfile hhandles
  obtain ⟨k, e, hk, he, rfl⟩ := (hasEntry_iff (h.rep.volRep hv) h.settled).mp hx
  have hbuf := h.closed _ hhandles
  have hbytes := h.bytes k p e hk he hfile
  rw [shown_unbuffered rfl hbuf] at hbytes
  exact (answer_file h.rep h.settled hv he hfile).trans (congrArg Except.ok hbytes)

/-- On every sound small-mode volume, a run of requests that meets the condition leaves on the
image what all the writes and truncations made of the files. -/
theorem writes_reach_disk (hrep : Rep g w S) (h : S.Settled T)
    (hv : Volume.fromDevice w.vol.dev = .ok v) {qs : List Request} {r r' : Reference} {f : FsInner}
    (hstart : ∀ ino, r.handles ino = 0) (hstored : Stored v r) (hmeets : Meets g qs (mount w))
    (hserve : serve qs (mount w) r = some (f, r')) :
    ∃ v', Volume.fromDevice f.access.vol.dev = .ok v' ∧ Stored v' r' := by
  have hmount : Agrees g (mount w) r S T := agrees_mount hrep h fun k p x hp hx hfile => by
    have hread := hstored p x.toDirEntry
      ((hasEntry_iff (hrep.volRep hv) h).mpr ⟨k, x, hp, hx, rfl⟩) hfile (hstart _)
    exact Except.ok.inj ((answer_file hrep h hv hx hfile).symm.trans hread)
  obtain ⟨S', T', hend⟩ := hmount.serve qs hmeets hserve
  obtain ⟨v', hv', -⟩ := hend.rep.reopen
  exact ⟨v', hv', hend.stored hv'⟩

end Image

/-! ### One file in the root -/

/-- Whether the root directory has one file `f`, with the anode 6, and which bytes it holds. -/
def holdsF (dev : Device) (bytes : Bytes) : Bool :=
  match Volume.fromDevice dev with
  | .error _ => false
  | .ok v =>
      match v.answer (Volume.listDirByAnode ANODE_ROOTDIR) with
      | .ok [e] =>
          match v.answer (Volume.readFileData e.anode e.fileSize) with
          | .ok data => e.name == ['f'] && e.anode == 6 && e.entryType == ST_FILE &&
              e.fileSize == bytes.length && data == bytes
          | .error _ => false
      | _ => false

theorem of_holdsF {dev : Device} {bytes : Bytes} (h : holdsF dev bytes = true) : ∃ v e,
    Volume.fromDevice dev = .ok v ∧ v.answer (Volume.listDirByAnode ANODE_ROOTDIR) = .ok [e] ∧
      v.answer (Volume.readFileData e.anode e.fileSize) = .ok bytes ∧ e.name = ['f'] ∧
      e.anode = 6 ∧ e.entryType = ST_FILE ∧ e.fileSize = bytes.length := by
  unfold holdsF at h
  split at h
  · cases h
  · rename_i v hv
    split at h
    · rename_i e hlist
      split at h
      · rename_i data hdata
        simp only [Bool.and_eq_true, beq_iff_eq] at h
        obtain ⟨⟨⟨⟨hname, hanode⟩, htype⟩, hsize⟩, rfl⟩ := h
        exact ⟨v, e, hv, hlist, hdata, hname, hanode, htype, hsize⟩
      · cases h
    · cases h

/-- What the reference has to say about such an image. -/
theorem stored_of_holdsF {dev : Device} {bytes : Bytes} (h : holdsF dev bytes = true)
    {v : Volume} (hv : Volume.fromDevice dev = .ok v) (r : Reference) :
    Stored v r ↔ (r.handles 106 = 0 → r.bytes 106 = bytes) := by
  obtain ⟨v₁, e, hv₁, hlist, hread, -, hanode, htype, -⟩ := of_holdsF h
  rw [hv] at hv₁
  cases hv₁
  have hfile : e.isDir = false := by
    have hbeq : e.isDir = (e.entryType == ST_USERDIR) := rfl
    rw [hbeq, htype]
    decide
  have hroot : ∀ p k, DirAt v p k → p = ANODE_ROOTDIR := by
    intro p k hp
    induction hp with
    | root => rfl
    | sub _ hes he hdir ih =>
        rw [ih, hlist] at hes
        cases hes
        obtain rfl := List.mem_singleton.mp he
        rw [hfile] at hdir
        cases hdir
  have hino : anodeToIno e.anode = 106 := by
    rw [hanode]
    rfl
  constructor
  · intro hstored hhandles
    have hbytes := hstored ANODE_ROOTDIR e ⟨⟨0, .root⟩, [e], hlist, List.mem_singleton_self e⟩ hfile
      (hino ▸ hhandles)
    rw [hread, hino] at hbytes
    exact (Except.ok.inj hbytes).symm
  · rintro hbytes p x ⟨⟨k, hp⟩, es, hes, hx⟩ - hhandles
    rw [hroot p k hp, hlist] at hes
    cases hes
    obtain rfl := List.mem_singleton.mp hx
    rw [hino] at hhandles ⊢
    rw [hbytes hhandles]
    exact hread

/-- The entry of the file. -/
theorem entry_of_holdsF {g : Geometry} {w : Writer} {S : Store} {T : Owners} {bytes : Bytes}
    (hrep : Rep g w S) (hset : S.Settled T) (h : holdsF w.vol.dev bytes = true) :
    ∃ y, y ∈ entriesOf S.live T ANODE_ROOTDIR ∧ S.found ANODE_ROOTDIR ['f'] = some y ∧
      y.IsPlain ∧ y.anode.toNat = 6 ∧ y.fileSize = bytes.length ∧ contentsOf S T y = bytes := by
  obtain ⟨v, e, hv, hlist, hread, hname, hanode, htype, hsize⟩ := of_holdsF h
  rw [hset.listed (hrep.volRep hv) hset.forest.root] at hlist
  obtain ⟨y, hy, rfl⟩ := List.map_eq_singleton_iff.mp (Except.ok.inj hlist)
  have hmem : y ∈ entriesOf S.live T ANODE_ROOTDIR := hy ▸ List.mem_singleton_self y
  have hplain : y.IsPlain := Or.inl htype
  obtain ⟨n, hn, hnd⟩ := hset.root
  have hmatch : matchesName ['f'] y = true := by
    have htext : y.text = ['f'] := hname
    rw [matchesName, htext]
    decide
  refine ⟨y, hmem, ?_, hplain, hanode, hsize, ?_⟩
  · rw [hset.found_eq hn hnd, hy, List.find?_cons_of_pos hmatch]
  · have hcontents := answer_file hrep hset hv hmem hplain.isDir
    exact Except.ok.inj (hcontents.symm.trans hread)

/-- Requests that are all answered, each with a test of the state before it. -/
def probed : List (Request × (FsInner → Bool)) → FsInner → Bool
  | [], _ => true
  | (q, test) :: l, f => test f &&
      match q.handle f with
      | .ok _ f' => probed l f'
      | .error _ _ => false

theorem meets_of_probed {g : Geometry} (l : List (Request × (FsInner → Bool))) :
    (∀ q test, (q, test) ∈ l → ∀ f S T, test f = true → Rep g f.access S → S.Settled T →
      Proper f S q) → ∀ f, probed l f = true → Meets g (l.map Prod.fst) f := by
  induction l with
  | nil => exact fun _ _ _ => trivial
  | cons a l ih =>
      obtain ⟨q, test⟩ := a
      intro hl f hf
      rw [probed, Bool.and_eq_true] at hf
      refine ⟨fun S T hrep hset => hl q test List.mem_cons_self f S T hf.1 hrep hset, ?_⟩
      intro reply f' hq
      have hrest := hf.2
      rw [hq] at hrest
      exact ih (fun q' test' hmem => hl q' test' (List.mem_cons_of_mem _ hmem)) f' hrest

theorem serve_of_probed (l : List (Request × (FsInner → Bool))) : ∀ {f : FsInner} (r : Reference),
    probed l f = true → ∃ f' r', serve (l.map Prod.fst) f r = some (f', r') := by
  induction l with
  | nil => exact fun {f} r _ => ⟨f, r, rfl⟩
  | cons a l ih =>
      obtain ⟨q, test⟩ := a
      intro f r hf
      rw [probed, Bool.and_eq_true] at hf
      have hrest := hf.2
      rw [List.map_cons, serve]
      cases hq : q.handle f with
      | ok reply f₁ =>
          rw [hq] at hrest
          exact ih (r.step q reply) hrest
      | error e f₁ =>
          rw [hq] at hrest
          cases hrest

/-- The file is opened, written to and released. -/
def writing : List (Request × (FsInner → Bool)) :=
  [(.lookup 1 ['f'], fun f => (f.inodes 1).all fun info => info.attr.kind = .directory),
    (.open 106 ⟨false, true, false, false⟩, fun f => holdsF f.access.vol.dev [1] &&
      (f.writeBufs 106).isNone && (f.inodes 106).any fun info =>
        info.anode == 6 && info.attr.size == 1),
    (.write 106 0 [2, 3], fun _ => true),
    (.release 106, fun f => holdsF f.access.vol.dev [1] &&
      f.writeBufs 106 == some (ANODE_ROOTDIR, ['f'], [2, 3]) &&
      (f.inodes 106).any fun info => info.anode == 6)]

theorem proper_open {f : FsInner} {g : Geometry} {S : Store} {T : Owners} {flags : OpenFlags}
    (hrep : Rep g f.access S) (hset : S.Settled T)
    (h : (holdsF f.access.vol.dev [1] && (f.writeBufs 106).isNone && (f.inodes 106).any fun info =>
      info.anode == 6 && info.attr.size == 1) = true) : Proper f S (.open 106 flags) := by
  intro _ _
  simp only [Bool.and_eq_true, Option.any_eq_true, beq_iff_eq, Option.isNone_iff_eq_none] at h
  obtain ⟨⟨hdev, hbuf⟩, info, hinfo, hanode, hsize⟩ := h
  obtain ⟨y, hy, -, hplain, hy6, hysize, -⟩ := entry_of_holdsF hrep hset hdev
  refine ⟨y, info, (hasFile_iff hset).mpr ⟨0, _, .self, hy, hplain.isDir⟩, hinfo, ?_,
    hanode.trans hy6.symm, hsize.trans hysize.symm, fun p name buf hsome => ?_⟩
  · rw [hy6]
    rfl
  · rw [hbuf] at hsome
    cases hsome

theorem proper_release {f : FsInner} {g : Geometry} {S : Store} {T : Owners}
    (hrep : Rep g f.access S) (hset : S.Settled T)
    (h : (holdsF f.access.vol.dev [1] && f.writeBufs 106 == some (ANODE_ROOTDIR, ['f'], [2, 3]) &&
      (f.inodes 106).any fun info => info.anode == 6) = true) : Proper f S (.release 106) := by
  intro p name buf hsome
  simp only [Bool.and_eq_true, Option.any_eq_true, beq_iff_eq] at h
  obtain ⟨⟨hdev, hbuf⟩, info, hinfo, hanode⟩ := h
  rw [hbuf] at hsome
  cases hsome
  obtain ⟨y, hy, hfound, hplain, hy6, -, hcontents⟩ := entry_of_holdsF hrep hset hdev
  refine ⟨fun hnil => absurd hnil (List.cons_ne_nil _ _), fun _ => ⟨y, info, .root, hfound, hplain, hinfo, ?_,
    hanode.trans hy6.symm, ?_, by decide, fun now => y.fileSize_setSize now (by decide), ?_⟩⟩
  · rw [hy6]
    rfl
  · rw [hanode]
    decide
  · -- one block is there already
    intro hlt
    obtain ⟨m, hm, -⟩ := hset.node hy
    rw [hset.blocksOf hm] at hlt
    have hone : Writer.blocksFor [(2 : UInt8), 3].length = 1 := by decide
    have hnil : m.blocks = [] := List.length_eq_zero_iff.mp (by omega)
    have hempty : (sectorBytes S.data []).take y.fileSize = [] := List.take_nil
    rw [contentsOf_some hm, hnil, hempty] at hcontents
    cases hcontents

/-- The reference of the image with the file. -/
def oneByte : Reference := ⟨fun _ => [1], fun _ => 0⟩

/-- A truncation when the file is opened. -/
def truncating : List Request :=
  [.lookup 1 ['f'], .open 106 ⟨false, true, true, false⟩, .release 106]

/-- A truncation while the file is not open. -/
def shrinking : List Request := [.lookup 1 ['f'], .setattr 106 0]

/-- A second opening between a write and the release. -/
def reopening : List Request :=
  [.lookup 1 ['f'], .open 106 ⟨false, true, false, false⟩, .write 106 0 [2, 3],
    .open 106 ⟨false, true, false, false⟩, .release 106, .release 106]

/-- Whether a run ends without open handles, and with other bytes on the image than `bytes`. -/
def loses (w : Writer) (bytes : Bytes) (qs : List Request) : Bool :=
  (serve qs (mount w) oneByte).any fun t => t.2.handles 106 == 0 &&
    holdsF t.1.access.vol.dev bytes && t.2.bytes 106 != bytes

/-- The image with the file, and what the runs on it do. -/
def oneFile : Evaluated (smallSession [.writeFile ['f'] [1]]) fun w =>
    holdsF w.vol.dev [1] && (probed writing (mount w) && (loses w [1] truncating &&
      (loses w [1] shrinking && loses w [1, 0] reopening))) :=
  .of (by decide +kernel)

theorem one_file : ∃ w, smallSession [.writeFile ['f'] [1]] = some w ∧
    holdsF w.vol.dev [1] = true ∧ probed writing (mount w) = true ∧
    loses w [1] truncating = true ∧ loses w [1] shrinking = true ∧
    loses w [1, 0] reopening = true := by
  have hchecks := oneFile.passes
  simp only [Bool.and_eq_true] at hchecks
  exact ⟨oneFile.val, oneFile.eq, hchecks⟩

/-- The image with the file is sound. -/
theorem settled_one_file {w : Writer} (h : smallSession [.writeFile ['f'] [1]] = some w) :
    ∃ g S T, Rep g w S ∧ S.Settled T := by
  obtain ⟨res, d', v₀, w₀, hformat, hv₀, hw₀, hcalls⟩ := of_session h
  obtain ⟨g, -, hrep₀⟩ := rep_of_format hformat (sound_blankDevice 67) (le_refl 67) (by decide)
    hv₀ hw₀
  obtain ⟨S, T, -, hrep, hset⟩ := hrep₀.run_calls (g.settled_freshStore _ _) hcalls
    ⟨g.affords_writeFile d'.sectors _, fun _ _ => trivial⟩
  exact ⟨g, S, T, hrep, hset⟩

theorem stored_oneByte {w : Writer} (h : holdsF w.vol.dev [1] = true) :
    ∃ v, Volume.fromDevice w.vol.dev = .ok v ∧ Stored v oneByte := by
  obtain ⟨v, -, hv, -⟩ := of_holdsF h
  exact ⟨v, hv, (stored_of_holdsF h hv oneByte).mpr fun _ => rfl⟩

/-- Two bytes are written over the one of the file. -/
theorem writes_reach_disk_twoBytes : ∃ w v f r v', smallSession [.writeFile ['f'] [1]] = some w ∧
    Volume.fromDevice w.vol.dev = .ok v ∧ Stored v oneByte ∧
    serve (writing.map Prod.fst) (mount w) oneByte = some (f, r) ∧
    Volume.fromDevice f.access.vol.dev = .ok v' ∧ Stored v' r := by
  obtain ⟨w, hsession, hdev, hprobed, -⟩ := one_file
  obtain ⟨v, hv, hstored⟩ := stored_oneByte hdev
  obtain ⟨f, r, hserve⟩ := serve_of_probed writing oneByte hprobed
  obtain ⟨g, S, T, hrep, hset⟩ := settled_one_file hsession
  have hmeets : Meets g (writing.map Prod.fst) (mount w) := by
    refine meets_of_probed writing (fun q test hmem f S T htest hrep hset => ?_) _ hprobed
    simp only [writing, List.mem_cons, Prod.mk.injEq, List.not_mem_nil, or_false] at hmem
    rcases hmem with ⟨rfl, rfl⟩ | ⟨rfl, rfl⟩ | ⟨rfl, rfl⟩ | ⟨rfl, rfl⟩
    · intro info hinfo
      dsimp only at htest
      rw [hinfo] at htest
      exact of_decide_eq_true htest
    · exact proper_open hrep hset htest
    · trivial
    · exact proper_release hrep hset htest
  obtain ⟨v', hv', hend⟩ := writes_reach_disk hrep hset hv (fun _ => rfl) hstored hmeets hserve
  exact ⟨w, v, f, r, v', hsession, hv, hstored, hserve, hv', hend⟩

/-- The request opens or releases no inode but 106. -/
def Request.Only106 : Request → Prop
  | .open ino _ => ino = 106
  | .create _ _ => False
  | .release ino => ino = 106
  | _ => True

theorem handles_serve (qs : List Request) : ∀ {f f' : FsInner} {r r' : Reference},
    (∀ q ∈ qs, q.Only106) → serve qs f r = some (f', r') →
      ∀ ino, ino ≠ 106 → r'.handles ino = r.handles ino := by
  induction qs with
  | nil =>
      intro f f' r r' _ h ino _
      cases h
      rfl
  | cons q qs ih =>
      intro f f' r r' hq h ino hino
      unfold serve at h
      cases hrun : q.handle f with
      | error e f₁ =>
          rw [hrun] at h
          cases h
      | ok reply f₁ =>
          rw [hrun] at h
          have hone := hq q List.mem_cons_self
          refine (ih (fun q' hq' => hq q' (List.mem_cons_of_mem q hq')) h ino hino).trans ?_
          cases q with
          | «open» i flags =>
              cases hone
              refine (Function.update_of_ne hino _ _).trans ?_
              unfold Reference.put
              split <;> rfl
          | create parent name => exact hone.elim
          | release i =>
              cases hone
              exact Function.update_of_ne hino _ _
          | _ => rfl

/-- The run is answered without error and ends without open handles, but the image does not hold
what the reference says. -/
def Loses (qs : List Request) : Prop :=
  ∃ w v f r v', smallSession [.writeFile ['f'] [1]] = some w ∧
    Volume.fromDevice w.vol.dev = .ok v ∧ Stored v oneByte ∧
    serve qs (mount w) oneByte = some (f, r) ∧ (∀ ino, r.handles ino = 0) ∧
    Volume.fromDevice f.access.vol.dev = .ok v' ∧ ¬ Stored v' r

theorem of_loses {w : Writer} {bytes : Bytes} {qs : List Request}
    (hsession : smallSession [.writeFile ['f'] [1]] = some w) (hdev : holdsF w.vol.dev [1] = true)
    (honly : ∀ q ∈ qs, q.Only106) (h : loses w bytes qs = true) : Loses qs := by
  obtain ⟨⟨f, r⟩, hserve, hchecks⟩ := (Option.any_eq_true _ _).mp h
  simp only [Bool.and_eq_true, beq_iff_eq, bne_iff_ne] at hchecks
  obtain ⟨⟨hzero, hend⟩, hne⟩ := hchecks
  obtain ⟨v, hv, hstored⟩ := stored_oneByte hdev
  have hall : ∀ ino, r.handles ino = 0 := by
    intro ino
    by_cases hino : ino = 106
    · rw [hino]
      exact hzero
    · exact handles_serve qs honly hserve ino hino
  obtain ⟨v', -, hv', -⟩ := of_holdsF hend
  exact ⟨w, v, f, r, v', hsession, hv, hstored, hserve, hall, hv', fun hsame =>
    hne ((stored_of_holdsF hend hv' r).mp hsame hzero)⟩

/-- A file truncated at its opening, or by its size without being open, keeps its bytes; a second
opening throws away what was written. -/
theorem writes_lost : Loses truncating ∧ Loses shrinking ∧ Loses reopening := by
  obtain ⟨w, hsession, hdev, -, htrunc, hshrink, hreopen⟩ := one_file
  exact ⟨of_loses hsession hdev (by simp [truncating, Request.Only106]) htrunc,
    of_loses hsession hdev (by simp [shrinking, Request.Only106]) hshrink,
    of_loses hsession hdev (by simp [reopening, Request.Only106]) hreopen⟩

end Fuse

end Pfs3
