import Pfs3.Fuse.Writes

/-!
# The name cache

Names are cached under the spelling that was asked for, while a directory takes any spelling; a
request that removes or moves an entry forgets one spelling only.  The cache stays true as long as
no other spelling is cached when that happens.
-/

namespace Pfs3

open ByteList Stop Store

namespace Fuse

/-! ## Requests -/

/-- The requests that look names up and change directories. -/
inductive NameRequest
  | lookup (parent : ℕ) (name : Name)
  | readdir (ino : ℕ)
  | create (parent : ℕ) (name : Name)
  | mkdir (parent : ℕ) (name : Name)
  | unlink (parent : ℕ) (name : Name)
  | rmdir (parent : ℕ) (name : Name)
  | rename (parent : ℕ) (name : Name) (newparent : ℕ) (newname : Name)

/-- The handler of a request. -/
def NameRequest.handle : NameRequest → FuseM Unit
  | .lookup parent name => do
      let _ ← Fuse.lookup parent name
      pure ()
  | .readdir ino => do
      let _ ← Fuse.readdir ino
      pure ()
  | .create parent name => do
      let _ ← Fuse.create parent name
      pure ()
  | .mkdir parent name => do
      let _ ← Fuse.mkdir parent name
      pure ()
  | .unlink parent name => Fuse.unlink parent name
  | .rmdir parent name => Fuse.rmdir parent name
  | .rename parent name newparent newname => Fuse.rename parent name newparent newname

/-- The state after the requests, whether they are answered with an error or not. -/
def after : List NameRequest → FsInner → Option FsInner
  | [], f => some f
  | q :: qs, f =>
      match q.handle f with
      | .ok _ f' => after qs f'
      | .error (.reply _) f' => after qs f'
      | .error .panic _ => none

/-- The directory `parent` of the volume has an entry called `name` with the inode number `ino`. -/
def Listed (v : Volume) (parent : ℕ) (name : Name) (ino : ℕ) : Prop :=
  ∃ p entries e, anodeToIno p = parent ∧ v.answer (Volume.listDirByAnode p) = .ok entries ∧
    e ∈ entries ∧ nameEqCi e.name name = true ∧ anodeToIno e.anode = ino

/-! ## The condition -/

/-- The inode is the one of a directory. -/
def InDirectory (f : FsInner) (S : Store) (parent : ℕ) : Prop :=
  ∀ info, f.inodes parent = some info → S.IsDirectory info.anode

/-- No other spelling of the name is cached. -/
def OneSpelling (f : FsInner) (parent : ℕ) (name : Name) : Prop :=
  ∀ s, f.nameCache (parent, s) ≠ none → nameEqCi s name = true → s = name

/-- A call that fails leaves a sound volume with the same entries. -/
def Harmless (g : Geometry) (m : WriterM Unit) (w : Writer) (S : Store) : Prop :=
  ∀ e w', m w = .error (.err e) w' → ∃ S' T', Rep g w' S' ∧ S'.Settled T' ∧
    ∀ T, S.Settled T → entriesOf S'.live T' = entriesOf S.live T

/-- The condition under which a request keeps the cache true, on the state before it. -/
def Lawful (g : Geometry) (f : FsInner) (S : Store) : NameRequest → Prop
  | .lookup parent _ => InDirectory f S parent
  | .readdir ino => InDirectory f S ino
  | .create parent name => ∀ info, f.inodes parent = some info →
      S.IsDirectory info.anode ∧ S.CanWrite info.anode name [] ∧
      Harmless g (Writer.writeFileIn info.anode name []) f.access S
  | .mkdir parent name => ∀ info, f.inodes parent = some info →
      S.IsDirectory info.anode ∧ S.CanEnter info.anode 1 (entrySize name 0) ∧
      Harmless g (Writer.createDirIn info.anode name) f.access S
  | .unlink parent name => OneSpelling f parent name ∧ ∀ info, f.inodes parent = some info →
      S.IsDirectory info.anode ∧ Harmless g (Writer.deleteIn info.anode name) f.access S
  | .rmdir parent name => OneSpelling f parent name ∧ ∀ info, f.inodes parent = some info →
      S.IsDirectory info.anode ∧ Harmless g (Writer.deleteIn info.anode name) f.access S
  | .rename parent name newparent newname => OneSpelling f parent name ∧
      (∀ s, f.nameCache (newparent, s) ≠ none → nameEqCi s newname = true →
        s = newname ∧ f.nameCache (parent, name) ≠ none) ∧
      nameEqCi (storedName newname) newname = true ∧
      ∀ src dst, f.inodes parent = some src → f.inodes newparent = some dst →
        S.IsDirectory src.anode ∧ S.IsDirectory dst.anode ∧
        ¬ (src.anode = dst.anode ∧ nameEqCi name newname = true) ∧
        (∀ e ino, S.found src.anode name = some e → f.nameCache (parent, name) = some ino →
          ino = anodeToIno e.anode.toNat) ∧
        Harmless g (Writer.renameIn src.anode name dst.anode newname) f.access S

/-- The handler ends with a reply in `Q`, with an error number in `E`, or with a panic. -/
def Ends {α : Type} (m : FuseM α) (Q : α → FsInner → Prop) (E : FsInner → Prop) (f : FsInner) :
    Prop :=
  match m f with
  | .ok a f' => Q a f'
  | .error (.reply _) f' => E f'
  | .error .panic _ => True

section Ends

variable {α β : Type} {m : FuseM α} {Q : α → FsInner → Prop} {E : FsInner → Prop} {f : FsInner}

theorem ends_pure {a : α} (h : Q a f) : Ends (pure a) Q E f := h

theorem ends_throw {errno : Errno} (h : E f) : Ends (throw (.reply errno) : FuseM α) Q E f := h

theorem Ends.bind {k : α → FuseM β} {Q' : β → FsInner → Prop} (h : Ends m Q E f)
    (hk : ∀ a f', Q a f' → Ends (k a) Q' E f') : Ends (m >>= k) Q' E f := by
  unfold Ends at h ⊢
  cases hm : m f with
  | ok a f' =>
      rw [hm] at h
      rw [bind_of_ok hm]
      exact hk a f' h
  | error e f' =>
      rw [hm] at h
      rw [bind_of_error hm]
      cases e with
      | reply errno => exact h
      | panic => exact h

theorem Ends.mono {Q' : α → FsInner → Prop} (h : Ends m Q E f) (hQ : ∀ a f', Q a f' → Q' a f') :
    Ends m Q' E f := by
  unfold Ends at h ⊢
  cases hm : m f with
  | ok a f' =>
      rw [hm] at h
      exact hQ a f' h
  | error e f' =>
      rw [hm] at h
      cases e with
      | reply errno => exact h
      | panic => trivial

theorem ends_get {k : FsInner → FuseM β} {Q' : β → FsInner → Prop} (h : Ends (k f) Q' E f) :
    Ends (get >>= k) Q' E f := h

theorem ends_modify {u : FsInner → FsInner} {k : PUnit → FuseM β} {Q' : β → FsInner → Prop}
    (h : Ends (k ()) Q' E (u f)) : Ends (modify u >>= k) Q' E f := h

/-- A call on the writer that is answered with an error number when it fails. -/
theorem ends_orReply {m : WriterM α} {errno : Errno}
    (hok : ∀ a w, m f.access = .ok a w → Q a { f with access := w })
    (herr : ∀ e w, m f.access = .error (.err e) w → E { f with access := w }) :
    Ends (orReply m errno) Q E f := by
  unfold Ends
  cases hm : m f.access with
  | ok a w =>
      have hlib : library m f = .ok (.ok a) { f with access := w } := by
        unfold library
        rw [hm]
      have hrun : orReply m errno f = .ok a { f with access := w } := bind_of_ok hlib
      rw [hrun]
      exact hok a w hm
  | error e w =>
      cases e with
      | err e =>
          have hlib : library m f = .ok (.error e) { f with access := w } := by
            unfold library
            rw [hm]
          have hrun : orReply m errno f = .error (.reply errno) { f with access := w } :=
            bind_of_ok hlib
          rw [hrun]
          exact herr e w hm
      | panic =>
          have hlib : library m f = .error .panic { f with access := w } := by
            unfold library
            rw [hm]
          have hrun : orReply m errno f = .error .panic { f with access := w } :=
            bind_of_error hlib
          rw [hrun]
          trivial

end Ends

/-! ## Calls on the library -/

section Calls

variable {g : Geometry} {f : FsInner} {S : Store} {T : Owners}

theorem hasDeldir_eq (h : Rep g f.access S) : hasDeldir f = false := h.vol.rb.deldir

theorem find_toDirEntry (name : Name) (l : List Entry) :
    (l.map Entry.toDirEntry).find? (fun e => nameEqCi e.name name) =
      (l.find? (matchesName name)).map Entry.toDirEntry :=
  Holds.find?_map_toDirEntry _ _

/-- Listing a directory of the volume never fails. -/
theorem ends_listDir {E : FsInner → Prop} (hrep : Rep g f.access S) (h : S.Settled T) {d : ℕ}
    {errno : Errno} (hd : kinds T d = some true) : Ends (orReply (Fuse.listDir d) errno)
      (fun es f' => es = (entriesOf S.live T d).map Entry.toDirEntry ∧
        ∃ w, Rep g w S ∧ f' = { f with access := w }) E f := by
  refine ends_orReply (fun es w hrun => ?_) fun e w hrun => ?_
  · obtain ⟨hrep', hes⟩ := of_listDir hrep h hd hrun
    exact ⟨hes, w, hrep', rfl⟩
  · obtain ⟨n, hn, hdir⟩ := Option.map_eq_some_iff.mp hd
    obtain ⟨es, w', hok, -, -⟩ := (hrep.listDirByAnode d).ok (h.listDir_run hn hdir)
    have hlist : Fuse.listDir d f.access = .ok es w' := hok
    rw [hrun] at hlist
    cases hlist

/-- The anode of a known parent. -/
theorem ends_parentAnode {E : FsInner → Prop} (hE : E f) (parent : ℕ) :
    Ends (Fuse.parentAnode parent) (fun d f' => f' = f ∧
      ∃ info, f.inodes parent = some info ∧ d = info.anode) E f := by
  unfold Fuse.parentAnode
  refine ends_get ?_
  cases hinfo : f.inodes parent with
  | none => exact ends_throw hE
  | some info => exact ends_pure ⟨rfl, info, rfl, rfl⟩

theorem ends_directoryAnode {E : FsInner → Prop} (hE : E f) (parent : ℕ) :
    Ends (Fuse.directoryAnode parent) (fun d f' => f' = f ∧
      ∃ info, f.inodes parent = some info ∧ d = info.anode) E f := by
  unfold Fuse.directoryAnode
  refine ends_get ?_
  cases hinfo : f.inodes parent with
  | none => exact ends_throw hE
  | some info =>
      dsimp only
      split
      · exact ends_pure ⟨rfl, info, rfl, rfl⟩
      · exact ends_throw hE

/-- Looking up the new entry. -/
theorem ends_findNew {E : FsInner → Prop} (hrep : Rep g f.access S) (h : S.Settled T) {d : ℕ}
    (name : Name) (hd : kinds T d = some true)
    (hE : ∀ w, Rep g w S → E { f with access := w }) : Ends (Fuse.findNew d name)
      (fun entry f' => ∃ w x, Rep g w S ∧ f' = { f with access := w } ∧
        x ∈ entriesOf S.live T d ∧ matchesName name x = true ∧ entry = x.toDirEntry) E f := by
  unfold Fuse.findNew
  refine (ends_listDir hrep h hd).bind ?_
  rintro es f₁ ⟨rfl, w, hrep', rfl⟩
  rw [find_toDirEntry]
  cases hx : (entriesOf S.live T d).find? (matchesName name) with
  | none => exact ends_throw (hE w hrep')
  | some x =>
      exact ends_pure ⟨w, x, hrep', rfl, List.mem_of_find?_eq_some hx, List.find?_some hx, rfl⟩

end Calls

/-! ## The invariant -/

/-- A name of the directory `parent` that stands on the image. -/
def Real (S : Store) (T : Owners) (parent : ℕ) (name : Name) (ino : ℕ) : Prop :=
  ∃ p x, anodeToIno p = parent ∧ x ∈ entriesOf S.live T p ∧ matchesName name x = true ∧
    anodeToIno x.anode.toNat = ino

/-- The driver's caches are true. -/
structure Truthful (g : Geometry) (f : FsInner) (S : Store) (T : Owners) : Prop where
  rep : Rep g f.access S
  settled : S.Settled T
  known : ∀ ino info, f.inodes ino = some info → anodeToIno info.anode = ino ∧ info.attr.ino = ino
  names : ∀ parent name ino, f.nameCache (parent, name) = some ino → Real S T parent name ino

/-- Some volume is there whose names the caches hold. -/
def Trusted (g : Geometry) (f : FsInner) : Prop := ∃ S T, Truthful g f S T

section Steps

variable {g : Geometry} {f f' : FsInner} {S S' : Store} {T T' : Owners}

/-- Directories that keep their entries, up to sizes and dates, keep the names. -/
theorem Real.mono {parent ino : ℕ} {name : Name} (h : Real S T parent name ino)
    (hkeep : ∀ q x, x ∈ entriesOf S.live T q → ∃ x' ∈ entriesOf S'.live T' q,
      x'.text = x.text ∧ x'.anode = x.anode) : Real S' T' parent name ino := by
  obtain ⟨p, x, hp, hx, hmatch, hino⟩ := h
  obtain ⟨x', hx', htext, hanode⟩ := hkeep p x hx
  refine ⟨p, x', hp, hx', ?_, hanode ▸ hino⟩
  rw [matchesName, htext]
  exact hmatch

/-- The volume may change as long as the entries stay. -/
theorem Truthful.mono (h : Truthful g f S T) (hrep : Rep g f'.access S') (hset : S'.Settled T')
    (hinodes : f'.inodes = f.inodes) (hnames : f'.nameCache = f.nameCache)
    (hkeep : ∀ q x, x ∈ entriesOf S.live T q → ∃ x' ∈ entriesOf S'.live T' q,
      x'.text = x.text ∧ x'.anode = x.anode) : Truthful g f' S' T' where
  rep := hrep
  settled := hset
  known := fun ino info hinfo => h.known ino info (hinodes ▸ hinfo)
  names := fun parent name ino hname => (h.names parent name ino (hnames ▸ hname)).mono hkeep

theorem Truthful.sameEntries (h : Truthful g f S T) (hrep : Rep g f'.access S')
    (hset : S'.Settled T') (hinodes : f'.inodes = f.inodes) (hnames : f'.nameCache = f.nameCache)
    (hentries : entriesOf S'.live T' = entriesOf S.live T) : Truthful g f' S' T' :=
  h.mono hrep hset hinodes hnames fun _ x hx => ⟨x, hentries ▸ hx, rfl, rfl⟩

theorem Truthful.harmless (h : Truthful g f S T) {m : WriterM Unit}
    (hm : Harmless g m f.access S) {e : Error} {w : Writer}
    (hrun : m f.access = .error (.err e) w) : Trusted g { f with access := w } := by
  obtain ⟨S', T', hrep, hset, hentries⟩ := hm e w hrun
  exact ⟨S', T', h.sameEntries hrep hset rfl rfl (hentries T h.settled)⟩

/-- An inode that is remembered under its own number. -/
theorem Truthful.insertInode (h : Truthful g f S T) {e : DirEntry} {parent : ℕ} :
    Truthful g (insertInode (makeAttr e parent).1 (makeAttr e parent).2 f) S T where
  rep := h.rep
  settled := h.settled
  names := h.names
  known := by
    intro ino info hinfo
    change Function.update f.inodes (makeAttr e parent).1 (some (makeAttr e parent).2) ino =
      some info at hinfo
    by_cases hino : ino = (makeAttr e parent).1
    · rw [hino, Function.update_self] at hinfo
      cases hinfo
      exact ⟨hino.symm, hino.symm⟩
    · rw [Function.update_of_ne hino] at hinfo
      exact h.known ino info hinfo

/-- The entry of a directory is remembered. -/
theorem Truthful.remember (h : Truthful g f S T) {p parent : ℕ} {name : Name} {x : Entry}
    (hp : anodeToIno p = parent) (hx : x ∈ entriesOf S.live T p) (hmatch : matchesName name x = true) :
    Ends (Fuse.remember parent name x.toDirEntry)
      (fun attr f' => Truthful g f' S T ∧ Real S T parent name attr.ino ∧
        f'.access = f.access) (Trusted g) f := by
  have hreal : Real S T parent name (anodeToIno x.anode.toNat) := ⟨p, x, hp, hx, hmatch, rfl⟩
  have hins := @Truthful.insertInode g f S T h x.toDirEntry parent
  refine ⟨{ hins with names := fun P s i hname => ?_ }, hreal, rfl⟩
  change Function.update f.nameCache (parent, name) (some (anodeToIno x.anode.toNat)) (P, s) =
    some i at hname
  by_cases hkey : (P, s) = (parent, name)
  · rw [hkey, Function.update_self] at hname
    cases hkey
    cases hname
    exact hreal
  · rw [Function.update_of_ne hkey] at hname
    exact h.names P s i hname

/-- The volume is as before, and the driver keeps what it knows. -/
theorem Truthful.quiet (h : Truthful g f S T) {w : Writer} (hrep : Rep g w S) :
    Truthful g { f with access := w } S T :=
  h.sameEntries hrep h.settled rfl rfl rfl

theorem Truthful.lookup (h : Truthful g f S T) {parent : ℕ} {name : Name}
    (hp : InDirectory f S parent) : Ends (Fuse.lookup parent name)
      (fun attr f' => Truthful g f' S T ∧ Real S T parent name attr.ino) (Trusted g) f := by
  have htrust : Trusted g f := ⟨S, T, h⟩
  unfold Fuse.lookup
  refine ends_get ?_
  rw [if_neg (by simp [hasDeldir_eq h.rep]), if_neg (by simp [hasDeldir_eq h.rep])]
  cases hcache : (f.nameCache (parent, name)).bind f.inodes with
  | some info =>
      obtain ⟨ino, hname, hinfo⟩ := Option.bind_eq_some_iff.mp hcache
      refine ends_pure ⟨h, ?_⟩
      rw [(h.known ino info hinfo).2]
      exact h.names parent name ino hname
  | none =>
      dsimp only
      cases hdir : f.inodes parent with
      | none => exact ends_throw htrust
      | some dir =>
          have hkind := (below_of_isDirectory h.settled (hp dir hdir)).2
          refine (ends_listDir h.rep h.settled hkind).bind ?_
          rintro es f₁ ⟨rfl, w, hrep, rfl⟩
          rw [find_toDirEntry]
          cases hx : (entriesOf S.live T dir.anode).find? (matchesName name) with
          | none => exact ends_throw ⟨S, T, h.quiet hrep⟩
          | some x =>
              have hend := (h.quiet hrep).remember (h.known parent dir hdir).1
                (List.mem_of_find?_eq_some hx) (List.find?_some hx)
              exact ⟨hend.1, hend.2.1⟩

theorem Truthful.children (parent : ℕ) (es : List DirEntry) : ∀ {f : FsInner}, Truthful g f S T →
    Truthful g ((es.map fun e => makeAttr e parent).foldl
      (fun f c => Fuse.insertInode c.1 c.2 f) f) S T := by
  induction es with
  | nil => exact fun h => h
  | cons e es ih => exact fun h => ih h.insertInode

theorem Truthful.readdir (h : Truthful g f S T) {ino : ℕ} (hp : InDirectory f S ino) :
    Ends (Fuse.readdir ino) (fun _ => Trusted g) (Trusted g) f := by
  have htrust : Trusted g f := ⟨S, T, h⟩
  unfold Fuse.readdir
  refine ends_get ?_
  rw [if_neg (by simp [hasDeldir_eq h.rep])]
  cases hdir : f.inodes ino with
  | none => exact ends_throw htrust
  | some dir =>
      dsimp only
      split
      · exact ends_throw htrust
      · have hkind := (below_of_isDirectory h.settled (hp dir hdir)).2
        refine (ends_listDir h.rep h.settled hkind).bind ?_
        rintro es f₁ ⟨-, w, hrep, rfl⟩
        exact ends_modify (ends_pure ⟨S, T, (h.quiet hrep).children ino _⟩)

/-! ### New entries -/

theorem keep_rewritten {p : ℕ} {e : Entry} {m : Node} {now : Datestamp} {data : Bytes}
    (hw : Rewritten S S' T p e m now data) : ∀ q x, x ∈ entriesOf S.live T q →
      ∃ x' ∈ entriesOf S'.live (Function.update T e.anode.toNat (some m)) q,
        x'.text = x.text ∧ x'.anode = x.anode := by
  intro q x hx
  obtain ⟨l₁, l₂, hold, hnew⟩ := hw.entries
  by_cases hq : q = p
  · subst hq
    rw [hold] at hx
    rcases Forest.mem_middle.mp hx with rfl | hx
    · exact ⟨_, mem_setSize hw, rfl, rfl⟩
    · exact ⟨x, hnew ▸ Forest.mem_middle.mpr (Or.inr hx), rfl, rfl⟩
  · exact ⟨x, (hw.entries_other q hq).symm ▸ hx, rfl, rfl⟩

theorem keep_entered {p nr : ℕ} {e : Entry} {m : Node} (hent : Entered S S' T T' p nr m e) :
    ∀ q x, x ∈ entriesOf S.live T q →
      ∃ x' ∈ entriesOf S'.live T' q, x'.text = x.text ∧ x'.anode = x.anode := by
  intro q x hx
  obtain ⟨l₁, l₂, hold, hnew⟩ := hent.entries
  by_cases hq : q = p
  · subst hq
    exact ⟨x, hnew ▸ Forest.mem_middle.mpr (Or.inr (hold ▸ hx)), rfl, rfl⟩
  · exact ⟨x, (hent.entries_other q hq).symm ▸ hx, rfl, rfl⟩

/-- A handler whose first call succeeds or leaves the entries as they are. -/
theorem Truthful.call (h : Truthful g f S T) {m : WriterM Unit} {errno : Errno}
    {Q : Unit → FsInner → Prop} (hm : Harmless g m f.access S)
    (hok : ∀ w, m f.access = .ok () w → Q () { f with access := w }) :
    Ends (orReply m errno) Q (Trusted g) f :=
  ends_orReply (fun _ w hrun => hok w hrun) fun _ _ hrun => h.harmless hm hrun

theorem Truthful.mkdir (h : Truthful g f S T) {parent : ℕ} {name : Name}
    (hp : Lawful g f S (.mkdir parent name)) :
    Ends (Fuse.mkdir parent name) (fun _ => Trusted g) (Trusted g) f := by
  unfold Fuse.mkdir
  refine (ends_directoryAnode ⟨S, T, h⟩ parent).bind ?_
  rintro d f₁ ⟨rfl, info, hinfo, rfl⟩
  obtain ⟨hdir, hcan, hharm⟩ := hp info hinfo
  have hkind := (below_of_isDirectory h.settled hdir).2
  obtain ⟨n, hn, hnd⟩ := Option.map_eq_some_iff.mp hkind
  refine (h.call hharm (Q := fun _ f' => ∃ S' T', Truthful g f' S' T' ∧
    kinds T' info.anode = some true) fun w hrun => ?_).bind ?_
  · obtain ⟨k, hroom, hk⟩ := CanEnter.room hcan h.settled hn
    obtain ⟨S', -, hrep, T', nr, m, now, hent, -, -⟩ :=
      (h.rep.createDirIn info.anode name).follow (post_createDirIn h.settled hn hnd hroom
        fun now nr hspace => hk (size_build .. ▸ hspace)) hrun
    exact ⟨S', T', h.mono hrep hent.settled rfl rfl (keep_entered hent), kinds_entered hent hkind⟩
  · rintro _ f' ⟨S', T', h', hkind'⟩
    refine (ends_findNew h'.rep h'.settled name hkind' fun _ hw => ⟨S', T', h'.quiet hw⟩).bind ?_
    rintro _ f₂ ⟨w₂, x, hrep₂, rfl, hx, hmatch, rfl⟩
    exact ((h'.quiet hrep₂).remember (h.known parent info hinfo).1 hx hmatch).mono fun _ _ hend =>
      ⟨S', T', hend.1⟩

/-- Writing an empty file keeps every name. -/
theorem Truthful.writeFileIn (h : Truthful g f S T) {p : ℕ} {name : Name} {w : Writer}
    (hkind : kinds T p = some true) (hcan : S.CanWrite p name [])
    (hrun : Writer.writeFileIn p name [] f.access = .ok () w) :
    ∃ S' T', Truthful g { f with access := w } S' T' ∧ kinds T' p = some true := by
  obtain ⟨S', hrep, ⟨e, m, now, -, hw⟩ | ⟨-, T', nr, m, now, hent, -⟩⟩ :=
    of_writeEmpty h.rep h.settled hkind hcan hrun
  · exact ⟨S', _, h.mono hrep hw.settled rfl rfl (keep_rewritten hw),
      kinds_rewritten hw h.settled ▸ hkind⟩
  · exact ⟨S', T', h.mono hrep hent.settled rfl rfl (keep_entered hent), kinds_entered hent hkind⟩

theorem Truthful.create (h : Truthful g f S T) {parent : ℕ} {name : Name}
    (hp : Lawful g f S (.create parent name)) :
    Ends (Fuse.create parent name) (fun _ => Trusted g) (Trusted g) f := by
  unfold Fuse.create
  refine (ends_directoryAnode ⟨S, T, h⟩ parent).bind ?_
  rintro d f₁ ⟨rfl, info, hinfo, rfl⟩
  obtain ⟨hdir, hcan, hharm⟩ := hp info hinfo
  have hkind := (below_of_isDirectory h.settled hdir).2
  refine (h.call hharm (Q := fun _ f' => ∃ S' T', Truthful g f' S' T' ∧
    kinds T' info.anode = some true) fun w hrun => h.writeFileIn hkind hcan hrun).bind ?_
  rintro _ f' ⟨S', T', h', hkind'⟩
  refine (ends_findNew h'.rep h'.settled name hkind' fun _ hw => ⟨S', T', h'.quiet hw⟩).bind ?_
  rintro _ f₂ ⟨w₂, x, hrep₂, rfl, hx, hmatch, rfl⟩
  refine ((h'.quiet hrep₂).remember (h.known parent info hinfo).1 hx hmatch).bind ?_
  rintro attr f₃ ⟨h₃, -, -⟩
  exact ends_modify (ends_pure ⟨S', T', h₃.sameEntries h₃.rep h₃.settled rfl rfl rfl⟩)

/-! ### Removed entries -/

/-- The name under which an entry was removed is the only one that stood for it. -/
theorem Truthful.forget (h : Truthful g f S T) {parent p : ℕ} {name : Name} {w : Writer} {e : Entry}
    {l₁ l₂ : List Entry} (hrep : Rep g w S') (hgone : Deleted S S' T p e l₁ l₂)
    (hmatch : matchesName name e = true) (hp : anodeToIno p = parent)
    (hone : OneSpelling f parent name) :
    Truthful g (forget parent name { f with access := w }) S'
      (Function.update T e.anode.toNat none) := by
  have hmem : e ∈ entriesOf S.live T p := hgone.old ▸ Forest.mem_middle.mpr (Or.inl rfl)
  -- every other cached name stays true
  have hstay : ∀ P s i, f.nameCache (P, s) = some i → (P, s) ≠ (parent, name) →
      Real S' (Function.update T e.anode.toNat none) P s i := by
    intro P s i hname hkey
    obtain ⟨q, x, hq, hx, hxs, hino⟩ := h.names P s i hname
    refine ⟨q, x, hq, ?_, hxs, hino⟩
    by_cases hxe : x = e
    · subst hxe
      obtain ⟨rfl, -⟩ := h.settled.entry_inj hx hmem rfl
      obtain rfl : P = parent := hq.symm.trans hp
      have hsome : f.nameCache (P, s) ≠ none := by
        rw [hname]
        exact Option.some_ne_none i
      obtain rfl := hone s hsome (nameEqCi_join hxs hmatch)
      exact absurd rfl hkey
    · by_cases hqp : q = p
      · subst hqp
        rw [hgone.old] at hx
        rw [hgone.entries]
        exact (Forest.mem_middle.mp hx).resolve_left hxe
      · exact (hgone.entries_other q hqp).symm ▸ hx
  unfold Fuse.forget
  dsimp only
  cases hcache : f.nameCache (parent, name) with
  | none =>
      refine ⟨hrep, hgone.settled, h.known, fun P s i hname => hstay P s i hname ?_⟩
      rintro hkey
      change f.nameCache (P, s) = some i at hname
      rw [hkey, hcache] at hname
      cases hname
  | some ino =>
      refine ⟨hrep, hgone.settled, fun i info hinfo => ?_, fun P s i hname => ?_⟩
      · change Function.update f.inodes ino none i = some info at hinfo
        by_cases hi : i = ino
        · rw [hi, Function.update_self] at hinfo
          cases hinfo
        · rw [Function.update_of_ne hi] at hinfo
          exact h.known i info hinfo
      · change Function.update f.nameCache (parent, name) none (P, s) = some i at hname
        by_cases hkey : (P, s) = (parent, name)
        · rw [hkey, Function.update_self] at hname
          cases hname
        · rw [Function.update_of_ne hkey] at hname
          exact hstay P s i hname hkey

/-- Deleting an entry; its name is forgotten next. -/
theorem Truthful.deleteIn (h : Truthful g f S T) {parent : ℕ} {name : Name} {errno : Errno}
    {info : InodeInfo} (hinfo : f.inodes parent = some info) (hdir : S.IsDirectory info.anode)
    (hone : OneSpelling f parent name)
    (hharm : Harmless g (Writer.deleteIn info.anode name) f.access S) :
    Ends (orReply (Writer.deleteIn info.anode name) errno)
      (fun _ f' => Trusted g (Fuse.forget parent name f')) (Trusted g) f := by
  obtain ⟨n, hn, hnd⟩ := Option.map_eq_some_iff.mp (below_of_isDirectory h.settled hdir).2
  refine h.call hharm fun w hrun => ?_
  obtain ⟨S', -, hrep, l₁, e, l₂, hmatch, -, hgone⟩ := (h.rep.deleteIn info.anode name).follow
    (post_deleteIn h.settled hn hnd name) hrun
  exact ⟨S', _, h.forget hrep hgone hmatch (h.known parent info hinfo).1 hone⟩

theorem Truthful.rmdir (h : Truthful g f S T) {parent : ℕ} {name : Name}
    (hp : Lawful g f S (.rmdir parent name)) :
    Ends (Fuse.rmdir parent name) (fun _ => Trusted g) (Trusted g) f := by
  unfold Fuse.rmdir
  refine (ends_parentAnode ⟨S, T, h⟩ parent).bind ?_
  rintro d f₁ ⟨rfl, info, hinfo, rfl⟩
  obtain ⟨hone, hcall⟩ := hp
  obtain ⟨hdir, hharm⟩ := hcall info hinfo
  exact (h.deleteIn hinfo hdir hone hharm).bind fun _ _ hq => hq

/-- The deleted files are listed again: there are none. -/
theorem Truthful.rebuildDeldir (h : Truthful g f S T) :
    Ends Fuse.rebuildDeldir (fun _ => Trusted g) (Trusted g) f := by
  unfold Ends
  rw [rebuildDeldir_run h.rep]
  refine ⟨S, T, h.rep, h.settled, fun ino info hinfo => ?_, h.names⟩
  change (if ino ∈ f.deldir.map DeldirEntry.ino then none else f.inodes ino) = some info at hinfo
  split at hinfo
  · cases hinfo
  · exact h.known ino info hinfo

theorem Truthful.unlink (h : Truthful g f S T) {parent : ℕ} {name : Name}
    (hp : Lawful g f S (.unlink parent name)) :
    Ends (Fuse.unlink parent name) (fun _ => Trusted g) (Trusted g) f := by
  unfold Fuse.unlink
  refine (ends_parentAnode ⟨S, T, h⟩ parent).bind ?_
  rintro d f₁ ⟨rfl, info, hinfo, rfl⟩
  obtain ⟨hone, hcall⟩ := hp
  obtain ⟨hdir, hharm⟩ := hcall info hinfo
  refine (h.deleteIn hinfo hdir hone hharm).bind ?_
  rintro _ f₂ ⟨S₂, T₂, h₂⟩
  exact ends_modify h₂.rebuildDeldir

/-! ### Moved entries -/

/-- The name of a moved entry moves with it. -/
theorem Truthful.moveName (h : Truthful g f S T) {S₁ : Store} {T₁ : Owners} {parent newparent s d : ℕ}
    {name newname : Name} {w : Writer} {e e' : Entry} (hrep : Rep g w S')
    (he : (entriesOf S.live T s).find? (matchesName name) = some e)
    (hvac : Vacated S S₁ T T₁ d newname) (hmoved : Moved S₁ S' T₁ T' s d e e')
    (hplaced : e' ∈ entriesOf S'.live T' d) (hname : matchesName newname e' = true)
    (hs : anodeToIno s = parent) (hd : anodeToIno d = newparent)
    (hone : OneSpelling f parent name)
    (hover : ∀ t, f.nameCache (newparent, t) ≠ none → nameEqCi t newname = true →
      t = newname ∧ f.nameCache (parent, name) ≠ none)
    (hfirst : ∀ ino, f.nameCache (parent, name) = some ino → ino = anodeToIno e.anode.toNat) :
    Truthful g (moveName parent name newparent newname { f with access := w }) S' T' := by
  have hmem := List.mem_of_find?_eq_some he
  have hsome : ∀ {k i}, f.nameCache k = some i → f.nameCache k ≠ none := fun h => by
    rw [h]
    exact Option.some_ne_none _
  -- what was cached stays true, but for the old name and a replaced one
  have hstay : ∀ P t i, f.nameCache (P, t) = some i → (P, t) ≠ (parent, name) →
      Real S' T' P t i ∨ ((P, t) = (newparent, newname) ∧ f.nameCache (parent, name) ≠ none) := by
    intro P t i hcached hkey
    obtain ⟨q, x, hq, hx, hxt, hino⟩ := h.names P t i hcached
    by_cases hxe : x = e
    · subst hxe
      obtain ⟨rfl, -⟩ := h.settled.entry_inj hx hmem rfl
      obtain rfl : P = parent := hq.symm.trans hs
      have hold := List.find?_some he
      obtain rfl := hone t (hsome hcached) (nameEqCi_join hxt hold)
      exact absurd rfl hkey
    · by_cases hgo : S.Goes T d newname q x
      · obtain ⟨rfl, hgone⟩ := hgo
        obtain rfl : P = newparent := hq.symm.trans hd
        have hold := List.find?_some hgone
        obtain ⟨rfl, hsrc⟩ := hover t (hsome hcached) (nameEqCi_join hxt hold)
        exact Or.inr ⟨rfl, hsrc⟩
      · refine Or.inl ⟨q, x, hq, hmoved.stays q x (hvac.mem hx hgo) fun heq => hxe ?_, hxt, hino⟩
        exact (h.settled.entry_inj hx hmem heq).2
  unfold Fuse.moveName
  dsimp only
  cases hcache : f.nameCache (parent, name) with
  | none =>
      refine ⟨hrep, hmoved.settled, h.known, fun P t i hcached => ?_⟩
      have hkey : (P, t) ≠ (parent, name) := by
        rintro hkey
        change f.nameCache (P, t) = some i at hcached
        rw [hkey, hcache] at hcached
        cases hcached
      exact (hstay P t i hcached hkey).resolve_right fun hr => hr.2 hcache
  | some ino =>
      refine ⟨hrep, hmoved.settled, fun i info hinfo => ?_, fun P t i hcached => ?_⟩
      · change Function.update f.inodes ino _ i = some info at hinfo
        by_cases hi : i = ino
        · rw [hi, Function.update_self] at hinfo
          obtain ⟨old, hold, rfl⟩ := Option.map_eq_some_iff.mp hinfo
          exact hi ▸ h.known ino old hold
        · rw [Function.update_of_ne hi] at hinfo
          exact h.known i info hinfo
      · change Function.update (Function.update f.nameCache (newparent, newname) (some ino))
          (parent, name) none (P, t) = some i at hcached
        by_cases hkey : (P, t) = (parent, name)
        · rw [hkey, Function.update_self] at hcached
          cases hcached
        · rw [Function.update_of_ne hkey] at hcached
          by_cases hnew : (P, t) = (newparent, newname)
          · rw [hnew, Function.update_self] at hcached
            cases hcached
            cases hnew
            refine ⟨d, e', hd, hplaced, hname, ?_⟩
            rw [hmoved.anode]
            exact (hfirst ino hcache).symm
          · rw [Function.update_of_ne hnew] at hcached
            exact (hstay P t i hcached hkey).resolve_right fun hr => hnew hr.1

theorem Truthful.rename (h : Truthful g f S T) {parent newparent : ℕ} {name newname : Name}
    (hp : Lawful g f S (.rename parent name newparent newname)) :
    Ends (Fuse.rename parent name newparent newname) (fun _ => Trusted g) (Trusted g) f := by
  unfold Fuse.rename
  refine (ends_parentAnode ⟨S, T, h⟩ parent).bind ?_
  rintro s f₁ ⟨rfl, src, hsrc, rfl⟩
  refine (ends_parentAnode ⟨S, T, h⟩ newparent).bind ?_
  rintro d f₂ ⟨rfl, dst, hdst, rfl⟩
  obtain ⟨hone, hover, hreadable, hcall⟩ := hp
  obtain ⟨hs, hd, hself, hfirst, hharm⟩ := hcall src dst hsrc hdst
  obtain ⟨n, hn, hnd⟩ := Option.map_eq_some_iff.mp (below_of_isDirectory h.settled hs).2
  obtain ⟨m, hm, hmd⟩ := Option.map_eq_some_iff.mp (below_of_isDirectory h.settled hd).2
  refine (h.call hharm (Q := fun _ f' => Trusted g
    (Fuse.moveName parent name newparent newname f')) fun w hrun => ?_).bind fun _ _ hq => hq
  obtain ⟨S', -, hrep, S₁, T₁, T', e, now, he, -, hvac, hmoved, hplaced⟩ :=
    (h.rep.renameIn src.anode name dst.anode newname).follow
      (post_renameIn h.settled hn hnd hm hmd hself) hrun
  have hname : matchesName newname (Entry.build now newname e.entryType e.anode.toNat e.fileSize
      e.protection.toNat) = true := by
    unfold matchesName
    rw [text_build]
    exact hreadable
  refine ⟨S', T', h.moveName hrep he hvac hmoved (hplaced fun heq => ?_) hname
    (h.known parent src hsrc).1 (h.known newparent dst hdst).1 hone hover fun ino hino => ?_⟩
  · exact Bool.eq_false_iff.mpr fun hmatch => hself ⟨heq, nameEqCi_join hmatch hname⟩
  · exact hfirst e ino ((h.settled.found_eq hn hnd name).trans he) hino

/-! ### Runs -/

/-- One request. -/
theorem Truthful.step (h : Truthful g f S T) {q : NameRequest} (hq : Lawful g f S q) :
    Ends q.handle (fun _ => Trusted g) (Trusted g) f := by
  cases q with
  | lookup parent name => exact (h.lookup hq).bind fun _ _ hend => ⟨S, T, hend.1⟩
  | readdir ino => exact (h.readdir hq).bind fun _ _ hend => hend
  | create parent name => exact (h.create hq).bind fun _ _ hend => hend
  | mkdir parent name => exact (h.mkdir hq).bind fun _ _ hend => hend
  | unlink parent name => exact h.unlink hq
  | rmdir parent name => exact h.rmdir hq
  | rename parent name newparent newname => exact h.rename hq

theorem Truthful.listed (h : Truthful g f S T) {parent ino : ℕ} {name : Name}
    (hreal : Real S T parent name ino) :
    ∃ v, Volume.fromDevice f.access.vol.dev = .ok v ∧ Listed v parent name ino := by
  obtain ⟨v, hv, -⟩ := h.rep.reopen
  obtain ⟨p, x, hp, hx, hmatch, hino⟩ := hreal
  exact ⟨v, hv, p, _, x.toDirEntry, hp,
    h.settled.listed (h.rep.volRep hv) (kinds_of_mem hx), List.mem_map_of_mem hx, hmatch, hino⟩

end Steps

end Fuse

end Pfs3
