import Pfs3.Fuse.Names

/-!
# Handles

A write buffer is keyed by an inode number, which is taken from an anode that can be used again,
and remembers the place of its file.  A release writes to whatever stands in that place; it keeps
to its own file as long as the file has not gone since the handle was opened, and is still found
in the remembered place.
-/

namespace Pfs3

open ByteList Stop Store

namespace Fuse

/-! ## Requests -/

/-- The requests that open, change, move and release files; a release names one of the handles
opened so far. -/
inductive HandleRequest
  | lookup (parent : ℕ) (name : Name)
  | «open» (ino : ℕ) (flags : OpenFlags)
  | create (parent : ℕ) (name : Name)
  | write (ino offset : ℕ) (data : Bytes)
  | rename (parent : ℕ) (name : Name) (newparent : ℕ) (newname : Name)
  | unlink (parent : ℕ) (name : Name)
  | release (handle : ℕ)

/-- A handle: the inode it was opened on, and how often the file of that inode number had gone
before. -/
structure Handle where
  ino : ℕ
  birth : ℕ

/-- The handler of a request, with the inode it opens. -/
def HandleRequest.handle (handles : List Handle) : HandleRequest → FuseM (Option ℕ)
  | .lookup parent name => do
      let _ ← Fuse.lookup parent name
      pure none
  | .open ino flags => do
      Fuse.open ino flags
      pure (some ino)
  | .create parent name => do
      let attr ← Fuse.create parent name
      pure (some attr.ino)
  | .write ino offset data => do
      let _ ← Fuse.write ino offset data
      pure none
  | .rename parent name newparent newname => do
      Fuse.rename parent name newparent newname
      pure none
  | .unlink parent name => do
      Fuse.unlink parent name
      pure none
  | .release handle =>
      match handles[handle]? with
      | none => pure none
      | some h => do
          Fuse.release h.ino
          pure none

/-- How a request ends that does not panic: the inode it opened, and the state. -/
def ended (m : FuseM (Option ℕ)) (f : FsInner) : Option (Option ℕ × FsInner) :=
  match m f with
  | .ok opened f' => some (opened, f')
  | .error (.reply _) f' => some (none, f')
  | .error .panic _ => none

/-! ## Files and their handles -/

/-- A file on the image has the inode number. -/
def FileAt (f : FsInner) (ino : ℕ) : Prop :=
  ∃ v p e, Volume.fromDevice f.access.vol.dev = .ok v ∧ HasEntry v p e ∧ e.isDir = false ∧
    anodeToIno e.anode = ino

/-- A file that is there no more has gone once more often. -/
def Counts (f f' : FsInner) (gone gone' : ℕ → ℕ) : Prop :=
  ∀ ino, (FileAt f ino ∧ ¬ FileAt f' ino → gone' ino = gone ino + 1) ∧
    (¬ (FileAt f ino ∧ ¬ FileAt f' ino) → gone' ino = gone ino)

/-- The states that runs reach whose requests meet `P`. -/
inductive Reaches (P : FsInner → (ℕ → ℕ) → List Handle → HandleRequest → Prop) (w : Writer) :
    FsInner → (ℕ → ℕ) → List Handle → Prop
  | mount : Reaches P w (mount w) (fun _ => 0) []
  | request {f f' : FsInner} {gone gone' : ℕ → ℕ} {handles : List Handle} {q : HandleRequest}
      {opened : Option ℕ} (before : Reaches P w f gone handles) (met : P f gone handles q)
      (run : ended (q.handle handles) f = some (opened, f')) (counts : Counts f f' gone gone') :
      Reaches P w f' gone' (handles ++ opened.toList.map fun ino => ⟨ino, gone' ino⟩)

/-- The release of the handle `h` leaves every other file alone: its entry with the size, its bytes
and its buffer. -/
def KeepsOthers (f f' : FsInner) (gone : ℕ → ℕ) (h : Handle) : Prop :=
  ∀ v, Volume.fromDevice f.access.vol.dev = .ok v →
    ∃ v', Volume.fromDevice f'.access.vol.dev = .ok v' ∧
      ∀ p x, HasEntry v p x → x.isDir = false →
        ¬ (anodeToIno x.anode = h.ino ∧ gone h.ino = h.birth) →
        HasEntry v' p x ∧ SameObject v v' x x ∧
          f'.writeBufs (anodeToIno x.anode) = f.writeBufs (anodeToIno x.anode) ∧
          f'.inodes (anodeToIno x.anode) = f.inodes (anodeToIno x.anode)

/-! ## The condition -/

/-- The condition under which a request keeps the volume sound and a release keeps to its own
file, on the state before it. -/
def Careful (g : Geometry) (f : FsInner) (gone : ℕ → ℕ) (handles : List Handle)
    (q : HandleRequest) : Prop :=
  ∀ S T, Rep g f.access S → S.Settled T →
    match q with
    | .lookup parent _ => InDirectory f S parent
    | .create parent name => ∀ info, f.inodes parent = some info →
        S.IsDirectory info.anode ∧ S.CanWrite info.anode name [] ∧
        Harmless g (Writer.writeFileIn info.anode name []) f.access S
    | .rename parent name newparent newname => ∀ src dst, f.inodes parent = some src →
        f.inodes newparent = some dst → S.IsDirectory src.anode ∧ S.IsDirectory dst.anode ∧
        ¬ (src.anode = dst.anode ∧ nameEqCi name newname = true) ∧
        Harmless g (Writer.renameIn src.anode name dst.anode newname) f.access S
    | .unlink parent name => ∀ info, f.inodes parent = some info →
        S.IsDirectory info.anode ∧ Harmless g (Writer.deleteIn info.anode name) f.access S
    | .release handle => ∀ h, handles[handle]? = some h →
        ∀ p name buf, f.writeBufs h.ino = some (p, name, buf) →
          (FileAt f h.ino → gone h.ino = h.birth) ∧
          (buf ≠ [] → ∀ info, f.inodes h.ino = some info → info.anode ≠ 0 →
            ∃ e, S.IsDirectory p ∧ S.found p name = some e ∧ e.IsPlain ∧
              anodeToIno e.anode.toNat = h.ino ∧ info.anode = e.anode.toNat ∧
              0 < Writer.blocksFor buf.length % U32 ∧
              ((S.blocksOf e.anode.toNat).length < Writer.blocksFor buf.length % U32 →
                S.Room (S.growAnodes (S.blocksOf e.anode.toNat).length buf)) ∧
              ∃ w, Writer.overwriteFileIn p name info.anode buf f.access = .ok () w)
    | _ => True

/-! ## The volume stays sound -/

/-- The driver's writer stands for a sound volume. -/
def Sound (g : Geometry) (f : FsInner) : Prop := ∃ S T, Rep g f.access S ∧ S.Settled T

section Steps

variable {g : Geometry} {f : FsInner} {S : Store} {T : Owners} {gone : ℕ → ℕ}
variable {handles : List Handle}

/-- A call that succeeds soundly, or leaves the entries as they are. -/
theorem ends_call {m : WriterM Unit} {errno : Errno} {Q : Unit → FsInner → Prop}
    (hm : Harmless g m f.access S) (hok : ∀ w, m f.access = .ok () w → Q () { f with access := w }) :
    Ends (orReply m errno) Q (Sound g) f := by
  refine ends_orReply (fun _ w hrun => hok w hrun) fun e w hrun => ?_
  obtain ⟨S', T', hrep, hset, -⟩ := hm e w hrun
  exact ⟨S', T', hrep, hset⟩

theorem sound_lookup (hrep : Rep g f.access S) (h : S.Settled T) {parent : ℕ} {name : Name}
    (hp : InDirectory f S parent) :
    Ends (Fuse.lookup parent name) (fun _ => Sound g) (Sound g) f := by
  have hsound : Sound g f := ⟨S, T, hrep, h⟩
  unfold Fuse.lookup
  refine ends_get ?_
  rw [if_neg (by simp [hasDeldir_eq hrep]), if_neg (by simp [hasDeldir_eq hrep])]
  cases (f.nameCache (parent, name)).bind f.inodes with
  | some info => exact ends_pure hsound
  | none =>
      dsimp only
      cases hdir : f.inodes parent with
      | none => exact ends_throw hsound
      | some dir =>
          refine (ends_listDir hrep h (below_of_isDirectory h (hp dir hdir)).2).bind ?_
          rintro es f₁ ⟨rfl, w, hrep', rfl⟩
          cases List.find? (fun e => nameEqCi e.name name)
              ((entriesOf S.live T dir.anode).map Entry.toDirEntry) with
          | none => exact ends_throw ⟨S, T, hrep', h⟩
          | some entry => exact ⟨S, T, hrep', h⟩

theorem sound_create (hrep : Rep g f.access S) (h : S.Settled T) {parent : ℕ} {name : Name}
    (hp : Careful g f gone handles (.create parent name)) :
    Ends (Fuse.create parent name) (fun _ => Sound g) (Sound g) f := by
  unfold Fuse.create
  refine (ends_directoryAnode ⟨S, T, hrep, h⟩ parent).bind ?_
  rintro d f₁ ⟨rfl, info, hinfo, rfl⟩
  obtain ⟨hdir, hcan, hharm⟩ := hp S T hrep h info hinfo
  have hkind := (below_of_isDirectory h hdir).2
  refine (ends_call hharm (Q := fun _ f' => ∃ S' T', Rep g f'.access S' ∧ S'.Settled T' ∧
    kinds T' info.anode = some true) fun w hrun => ?_).bind ?_
  · obtain ⟨S', hrep', ⟨e, m, now, -, hw⟩ | ⟨-, T', nr, m, now, hent, -⟩⟩ :=
      of_writeEmpty hrep h hkind hcan hrun
    · exact ⟨S', _, hrep', hw.settled, kinds_rewritten hw h ▸ hkind⟩
    · exact ⟨S', T', hrep', hent.settled, kinds_entered hent hkind⟩
  · rintro _ f₂ ⟨S', T', hrep', hset', hkind'⟩
    refine (ends_findNew hrep' hset' name hkind' fun w hw => ⟨S', T', hw, hset'⟩).bind ?_
    rintro _ f₃ ⟨w, x, hw, rfl, -, -, rfl⟩
    exact ⟨S', T', hw, hset'⟩

theorem sound_rename (hrep : Rep g f.access S) (h : S.Settled T) {parent newparent : ℕ}
    {name newname : Name} (hp : Careful g f gone handles (.rename parent name newparent newname)) :
    Ends (Fuse.rename parent name newparent newname) (fun _ => Sound g) (Sound g) f := by
  unfold Fuse.rename
  refine (ends_parentAnode ⟨S, T, hrep, h⟩ parent).bind ?_
  rintro s f₁ ⟨rfl, src, hsrc, rfl⟩
  refine (ends_parentAnode ⟨S, T, hrep, h⟩ newparent).bind ?_
  rintro d f₂ ⟨rfl, dst, hdst, rfl⟩
  obtain ⟨hs, hd, hself, hharm⟩ := hp S T hrep h src dst hsrc hdst
  obtain ⟨n, hn, hnd⟩ := h.isDirectory hs
  obtain ⟨m, hm, hmd⟩ := h.isDirectory hd
  refine (ends_call hharm (Q := fun _ f' => Sound g f') fun w hrun => ?_).bind ?_
  · obtain ⟨S', -, hrep', S₁, T₁, T', e, now, -, -, -, hmoved, -⟩ :=
      (hrep.renameIn src.anode name dst.anode newname).follow
        (post_renameIn h hn hnd hm hmd hself) hrun
    exact ⟨S', T', hrep', hmoved.settled⟩
  · rintro _ f₃ ⟨S', T', hrep', hset'⟩
    refine ⟨S', T', ?_, hset'⟩
    unfold moveName
    cases f₃.nameCache (parent, name) with
    | none => exact hrep'
    | some ino => exact hrep'

theorem sound_unlink (hrep : Rep g f.access S) (h : S.Settled T) {parent : ℕ} {name : Name}
    (hp : Careful g f gone handles (.unlink parent name)) :
    Ends (Fuse.unlink parent name) (fun _ => Sound g) (Sound g) f := by
  unfold Fuse.unlink
  refine (ends_parentAnode ⟨S, T, hrep, h⟩ parent).bind ?_
  rintro d f₁ ⟨rfl, info, hinfo, rfl⟩
  obtain ⟨hdir, hharm⟩ := hp S T hrep h info hinfo
  obtain ⟨n, hn, hnd⟩ := h.isDirectory hdir
  refine (ends_call hharm (Q := fun _ f' => Sound g f') fun w hrun => ?_).bind ?_
  · obtain ⟨S', -, hrep', l₁, e, l₂, -, -, hgone⟩ :=
      (hrep.deleteIn info.anode name).follow (post_deleteIn h hn hnd name) hrun
    exact ⟨S', _, hrep', hgone.settled⟩
  · rintro _ f₂ ⟨S', T', hrep', hset'⟩
    refine ends_modify ?_
    have hforget : (forget parent name f₂).access = f₂.access := by
      unfold forget
      cases f₂.nameCache (parent, name) <;> rfl
    unfold Ends
    rw [rebuildDeldir_run (hforget.symm ▸ hrep')]
    exact ⟨S', T', hforget.symm ▸ hrep', hset'⟩

/-- Reading a file asks the device only, whatever anode and size are cached. -/
theorem ends_readFileData {E : FsInner → Prop} (hrep : Rep g f.access S) (anode size : ℕ) :
    Ends (library (Writer.onVol (Volume.readFileData anode size)))
      (fun _ f' => ∃ w, Rep g w S ∧ f' = { f with access := w }) E f := by
  have hsame : ∃ v', f.access.vol.Same S.geo v' ∧
      ((∃ bytes, Volume.readFileData anode size f.access.vol = .ok bytes v') ∨
        ∃ e, Volume.readFileData anode size f.access.vol = .error e v') := by
    unfold Volume.readFileData
    rcases same_of_getAnodeChain hrep.vol anode with ⟨c, v', hv', hs⟩ | ⟨e, v', hv', hs⟩
    · refine ⟨v', hs, ?_⟩
      rw [bind_of_ok hv']
      cases hr : Volume.readBlocksData v'.dev (AnodeReader.chainBlocks c) size with
      | ok bytes =>
          left
          refine ⟨bytes, (bind_of_ok rfl).trans ?_⟩
          rw [hr]
          rfl
      | error e =>
          right
          refine ⟨e, (bind_of_ok rfl).trans ?_⟩
          rw [hr]
          rfl
    · exact ⟨v', hs, Or.inr ⟨e, bind_of_error hv'⟩⟩
  obtain ⟨v', hs, ⟨bytes, hrun⟩ | ⟨e, hrun⟩⟩ := hsame
  · unfold Ends library Writer.onVol zoom Writer.setVol
    simp only [hrun]
    exact ⟨_, hrep.sameVol hs, rfl⟩
  · unfold Ends library Writer.onVol zoom Writer.setVol
    simp only [hrun]
    cases e with
    | err e => exact ⟨_, hrep.sameVol hs, rfl⟩
    | panic => trivial

theorem sound_open (hrep : Rep g f.access S) (h : S.Settled T) (ino : ℕ) (flags : OpenFlags) :
    Ends (Fuse.open ino flags) (fun _ => Sound g) (Sound g) f := by
  have hsound : Sound g f := ⟨S, T, hrep, h⟩
  unfold Fuse.open
  refine ends_get ?_
  cases f.inodes ino with
  | none => exact ends_throw hsound
  | some info =>
      dsimp only
      split
      · exact ends_throw hsound
      · split
        · split
          · exact ends_modify (ends_pure ⟨S, T, hrep, h⟩)
          · refine (ends_readFileData hrep _ _).bind ?_
            rintro x f₁ ⟨w, hw, rfl⟩
            exact ⟨S, T, hw, h⟩
        · exact ends_pure hsound

theorem sound_write (hrep : Rep g f.access S) (h : S.Settled T) (ino offset : ℕ) (data : Bytes) :
    Ends (Fuse.write ino offset data) (fun _ => Sound g) (Sound g) f := by
  unfold Fuse.write
  refine ends_get ?_
  cases f.writeBufs ino with
  | none => exact ends_throw ⟨S, T, hrep, h⟩
  | some b => exact ⟨S, T, hrep, h⟩

/-! ## A release -/

/-- Where the files with other inode numbers stay as they are, the release has kept to its own. -/
theorem keepsOthers_of {f' : FsInner} {S' : Store} {T' : Owners} {h : Handle}
    (hrep : Rep g f.access S) (hset : S.Settled T) (hrep' : Rep g f'.access S')
    (hset' : S'.Settled T') (hown : FileAt f h.ino → gone h.ino = h.birth)
    (hbufs : ∀ i, i ≠ h.ino → f'.writeBufs i = f.writeBufs i)
    (hinodes : ∀ i, i ≠ h.ino → f'.inodes i = f.inodes i)
    (hkept : ∀ k p x, Below (entriesOf S.live T) ANODE_ROOTDIR k p → x ∈ entriesOf S.live T p →
      x.isDir = false → anodeToIno x.anode.toNat ≠ h.ino →
      (∃ k', Below (entriesOf S'.live T') ANODE_ROOTDIR k' p) ∧ x ∈ entriesOf S'.live T' p ∧
        contentsOf S' T' x = contentsOf S T x) : KeepsOthers f f' gone h := by
  intro v hv
  obtain ⟨v', hv', -⟩ := hrep'.reopen
  refine ⟨v', hv', fun p x hx hfile hother => ?_⟩
  obtain ⟨k, y, hk, hy, rfl⟩ := (hasEntry_iff (hrep.volRep hv) hset).mp hx
  have hino : anodeToIno y.anode.toNat ≠ h.ino := fun heq =>
    hother ⟨heq, hown ⟨v, p, _, hv, hx, hfile, heq⟩⟩
  obtain ⟨⟨k', hk'⟩, hy', hcontents⟩ := hkept k p y hk hy hfile hino
  have hread' := answer_file hrep' hset' hv' hy' hfile
  rw [hcontents] at hread'
  refine ⟨(hasEntry_iff (hrep'.volRep hv') hset').mpr ⟨k', y, hk', hy', rfl⟩, ?_,
    hbufs _ hino, hinodes _ hino⟩
  exact ⟨rfl, rfl, rfl, fun _ => ⟨_, answer_file hrep hset hv hy hfile, hread'⟩⟩

theorem keepsOthers_refl (hrep : Rep g f.access S) (hset : S.Settled T) (h : Handle) :
    KeepsOthers f f gone h := by
  intro v hv
  refine ⟨v, hv, fun p x hx hfile _ => ⟨hx, ?_, rfl, rfl⟩⟩
  obtain ⟨-, y, -, hy, rfl⟩ := (hasEntry_iff (hrep.volRep hv) hset).mp hx
  have hread := answer_file hrep hset hv hy hfile
  exact ⟨rfl, rfl, rfl, fun _ => ⟨_, hread, hread⟩⟩

/-- An overwriting leaves the entries of the other files alone. -/
theorem stays_rewritten {S' : Store} {p : ℕ} {e : Entry} {m : Node} {now : Datestamp} {data : Bytes}
    (hw : Rewritten S S' T p e m now data) {k q : ℕ} {x : Entry}
    (hq : Below (entriesOf S.live T) ANODE_ROOTDIR k q) (hx : x ∈ entriesOf S.live T q)
    (hne : anodeToIno x.anode.toNat ≠ anodeToIno e.anode.toNat) :
    (∃ k', Below (entriesOf S'.live (Function.update T e.anode.toNat (some m))) ANODE_ROOTDIR k' q) ∧
      x ∈ entriesOf S'.live (Function.update T e.anode.toNat (some m)) q ∧
      contentsOf S' (Function.update T e.anode.toNat (some m)) x = contentsOf S T x := by
  refine ⟨⟨k, below_of_anodes (fun d y hy => ?_) hq⟩, ?_, ?_⟩
  · obtain ⟨y', hy', -, hanode⟩ := keep_rewritten hw d y hy
    exact ⟨y', hy', hanode⟩
  · by_cases hp : q = p
    · subst hp
      obtain ⟨l₁, l₂, hold, hnew⟩ := hw.entries
      rw [hold] at hx
      rcases Forest.mem_middle.mp hx with rfl | hx
      · exact absurd rfl hne
      · exact hnew ▸ Forest.mem_middle.mpr (Or.inr hx)
    · exact (hw.entries_other q hp).symm ▸ hx
  · exact hw.contents_other fun heq => hne (congrArg (anodeToIno ·.toNat) heq)

theorem ends_release (hrep : Rep g f.access S) (hset : S.Settled T) {k : ℕ} {h : Handle}
    (hk : handles[k]? = some h) (hp : Careful g f gone handles (.release k)) :
    Ends (Fuse.release h.ino) (fun _ f' => Sound g f' ∧ KeepsOthers f f' gone h)
      (fun _ => False) f := by
  have hcare := hp S T hrep hset h hk
  unfold Fuse.release
  refine ends_get (ends_modify ?_)
  cases hbuf : f.writeBufs h.ino with
  | none =>
      have hsame : removeBuf h.ino f = f := by
        have hnone : Function.update f.writeBufs h.ino none = f.writeBufs := by
          rw [← hbuf]
          exact Function.update_eq_self ..
        unfold removeBuf
        rw [hnone]
      rw [hsame]
      exact ends_pure ⟨⟨S, T, hrep, hset⟩, keepsOthers_refl hrep hset h⟩
  | some b =>
      obtain ⟨p, name, data⟩ := b
      obtain ⟨hown, hstore⟩ := hcare p name data hbuf
      have hquiet : KeepsOthers f (removeBuf h.ino f) gone h :=
        keepsOthers_of hrep hset hrep hset hown (fun i hi => Function.update_of_ne hi _ _)
          (fun _ _ => rfl) fun k p x hq hx _ _ => ⟨⟨k, hq⟩, hx, rfl⟩
      dsimp only
      split
      · exact ends_pure ⟨⟨S, T, hrep, hset⟩, hquiet⟩
      · rename_i hdata
        cases hinfo : f.inodes h.ino with
        | none => exact ends_pure ⟨⟨S, T, hrep, hset⟩, hquiet⟩
        | some info =>
            rw [Option.elim_some]
            by_cases hanode : info.anode = 0
            · rw [if_pos hanode]
              exact ends_pure ⟨⟨S, T, hrep, hset⟩, hquiet⟩
            · rw [if_neg hanode]
              obtain ⟨e, hdir, hfound, hplain, hino, hnr, hpos, hroom, w, hw⟩ :=
                hstore hdata info hinfo hanode
              obtain ⟨-, hkind⟩ := below_of_isDirectory hset hdir
              obtain ⟨n, hn, hnd⟩ := Option.map_eq_some_iff.mp hkind
              have hfind := hset.found hn hnd hfound
              have he := List.mem_of_find?_eq_some hfind
              obtain ⟨m, hm, -⟩ := hset.node he
              rw [hset.blocksOf hm] at hroom
              rw [hnr] at hw ⊢
              obtain ⟨S', -, hrep', m', now, hw'⟩ := (hrep.overwriteFileIn p name e.anode.toNat
                data).follow (post_overwriteFileIn hset hn hnd hfind hplain.isDir hm hpos hroom) hw
              have hlib : library (Writer.overwriteFileIn p name e.anode.toNat data)
                  (removeBuf h.ino f) = .ok (.ok ()) { removeBuf h.ino f with access := w } := by
                have haccess : (removeBuf h.ino f).access = f.access := rfl
                unfold library
                rw [haccess, hw]
              unfold Ends
              rw [bind_of_ok hlib]
              refine ⟨⟨S', _, hrep', hw'.settled⟩, keepsOthers_of hrep hset hrep' hw'.settled hown
                (fun i hi => Function.update_of_ne hi _ _) (fun i hi => Function.update_of_ne hi _ _)
                fun k q x hq hx _ hne => stays_rewritten hw' hq hx ?_⟩
              rw [hino]
              exact hne

/-! ## Runs -/

theorem of_ends {m : FuseM (Option ℕ)} {Q : FsInner → Prop} {opened : Option ℕ} {f' : FsInner}
    (h : Ends m (fun _ => Q) Q f) (hrun : ended m f = some (opened, f')) : Q f' := by
  unfold Ends at h
  unfold ended at hrun
  split at hrun
  · rename_i o f₁ hm
    cases hrun
    rw [hm] at h
    exact h
  · rename_i e f₁ hm
    cases hrun
    rw [hm] at h
    exact h
  · cases hrun

theorem Ends.weaken {α : Type} {m : FuseM α} {Q : α → FsInner → Prop} {E E' : FsInner → Prop}
    (h : Ends m Q E f) (hE : ∀ f', E f' → E' f') : Ends m Q E' f := by
  unfold Ends at h ⊢
  cases hm : m f with
  | ok a f' =>
      rw [hm] at h
      exact h
  | error e f' =>
      rw [hm] at h
      cases e with
      | reply errno => exact hE f' h
      | panic => trivial

theorem handle_release {k : ℕ} {h : Handle} (hk : handles[k]? = some h) :
    (HandleRequest.release k).handle handles = (do Fuse.release h.ino; pure none) := by
  unfold HandleRequest.handle
  simp only [hk]

/-- What one request preserves. -/
theorem sound_step {q : HandleRequest} {opened : Option ℕ} {f' : FsInner} (hs : Sound g f)
    (hp : Careful g f gone handles q) (hrun : ended (q.handle handles) f = some (opened, f')) :
    Sound g f' := by
  obtain ⟨S, T, hrep, hset⟩ := hs
  refine of_ends ?_ hrun
  cases q with
  | lookup parent name =>
      exact (sound_lookup hrep hset (hp S T hrep hset)).bind fun _ _ h => ends_pure h
  | «open» ino flags => exact (sound_open hrep hset ino flags).bind fun _ _ h => ends_pure h
  | create parent name => exact (sound_create hrep hset hp).bind fun _ _ h => ends_pure h
  | write ino offset data =>
      exact (sound_write hrep hset ino offset data).bind fun _ _ h => ends_pure h
  | rename parent name newparent newname =>
      exact (sound_rename hrep hset hp).bind fun _ _ h => ends_pure h
  | unlink parent name => exact (sound_unlink hrep hset hp).bind fun _ _ h => ends_pure h
  | release k =>
      cases hk : handles[k]? with
      | none =>
          unfold HandleRequest.handle
          simp only [hk]
          exact ends_pure (Q := fun _ => Sound g) ⟨S, T, hrep, hset⟩
      | some h =>
          rw [handle_release hk]
          have hend := (ends_release hrep hset hk hp).mono fun _ _ hkeeps => hkeeps.1
          exact (hend.weaken fun _ hfalse => hfalse.elim).bind fun _ _ hsound => ends_pure hsound

/-- What a run preserves. -/
theorem Reaches.sound {w : Writer} (hrep : Rep g w S) (hset : S.Settled T) {f : FsInner}
    {gone : ℕ → ℕ} {handles : List Handle} (h : Reaches (Careful g) w f gone handles) :
    Sound g f := by
  induction h with
  | mount => exact ⟨S, T, (mount_spec hrep).1.symm ▸ hrep, hset⟩
  | request _ met run _ ih => exact sound_step ih met run

end Steps

/-! ### A file, its handle and a new file -/

theorem Reaches.next {P : FsInner → (ℕ → ℕ) → List Handle → HandleRequest → Prop} {w : Writer}
    {f f' : FsInner} {gone : ℕ → ℕ} {handles : List Handle} {q : HandleRequest} {opened : Option ℕ}
    (h : Reaches P w f gone handles) (met : P f gone handles q)
    (run : ended (q.handle handles) f = some (opened, f')) : ∃ gone', Counts f f' gone gone' ∧
      Reaches P w f' gone' (handles ++ opened.toList.map fun ino => ⟨ino, gone' ino⟩) := by
  classical
  have hcounts : Counts f f' gone fun ino =>
      if FileAt f ino ∧ ¬ FileAt f' ino then gone ino + 1 else gone ino :=
    fun ino => ⟨fun hgoes => if_pos hgoes, fun hstays => if_neg hstays⟩
  exact ⟨_, hcounts, h.request met run hcounts⟩

/-- The file is looked up, opened for writing and written to: the states after each request. -/
def opened (w : Writer) : Option (FsInner × FsInner × FsInner) :=
  match ended ((HandleRequest.lookup 1 ['f']).handle []) (mount w) with
  | some (none, f₁) =>
      match ended ((HandleRequest.open 106 ⟨false, true, false, false⟩).handle []) f₁ with
      | some (some 106, f₂) =>
          match ended ((HandleRequest.write 106 0 [2, 3]).handle []) f₂ with
          | some (none, f₃) => some (f₁, f₂, f₃)
          | _ => none
      | _ => none
  | _ => none

end Fuse

end Pfs3
