import Pfs3.Tree.Clean
import Pfs3.Tree.Contents

/-!
# Renaming keeps every object

`rename_in` deletes an object that has the new name, adds the new entry and takes out the old
one.  Two things break the tree: renaming an entry onto itself deletes the object before the new
entry is written, and a directory moved below itself can no longer be reached.
-/

namespace Pfs3

open ByteList Stop Store

/-! ## The property -/

/-- `e` is an entry of the directory `p`, which can be reached from the root. -/
def HasEntry (v : Volume) (p : ℕ) (e : DirEntry) : Prop :=
  (∃ k, DirAt v p k) ∧ ∃ entries, v.answer (Volume.listDirByAnode p) = .ok entries ∧ e ∈ entries

/-- A search for `name` in the directory `p` finds the entry `e`. -/
def FindsEntry (v : Volume) (p : ℕ) (name : Name) (e : DirEntry) : Prop :=
  ∃ entries, v.answer (Volume.listDirByAnode p) = .ok entries ∧
    entries.find? (fun e => nameEqCi e.name name) = some e

/-- The object of the entry `e`, with its contents, is the one of the entry `e'` afterwards. -/
structure SameObject (v v' : Volume) (e e' : DirEntry) : Prop where
  anode : e'.anode = e.anode
  entryType : e'.entryType = e.entryType
  fileSize : e'.fileSize = e.fileSize
  contents : e.isDir = false → ∃ bytes,
    v.answer (Volume.readFileData e.anode e.fileSize) = .ok bytes ∧
    v'.answer (Volume.readFileData e.anode e.fileSize) = .ok bytes

/-- The entry `x` of the directory `p` is the destination, and another one than the source. -/
def IsReplaced (v : Volume) (s : ℕ) (srcName : Name) (d : ℕ) (name : Name) (p : ℕ)
    (x : DirEntry) : Prop :=
  p = d ∧ FindsEntry v d name x ∧ ¬ (s = d ∧ FindsEntry v s srcName x)

/-- What the volume `v'` after a renaming has of the volume `v` before it. -/
structure RenameKeeps (v v' : Volume) (s : ℕ) (srcName : Name) (d : ℕ) (name : Name) : Prop where
  kept : ∀ p x, HasEntry v p x → ¬ IsReplaced v s srcName d name p x →
    ∃ p' x', HasEntry v' p' x' ∧ SameObject v v' x x'
  stays : ∀ p x, HasEntry v p x → ¬ IsReplaced v s srcName d name p x →
    (p = s ∧ FindsEntry v s srcName x) ∨ HasEntry v' p x
  only : ∀ p x, HasEntry v' p x → (p = d ∧ FindsEntry v' d name x) ∨ HasEntry v p x
  found : ∃ e e', FindsEntry v s srcName e ∧ FindsEntry v' d name e' ∧ SameObject v v' e e'
  gone : ¬ (s = d ∧ nameEqCi srcName name = true) → ∀ e x, FindsEntry v s srcName e →
    HasEntry v' s x → nameEqCi x.name srcName = true → x.anode ≠ e.anode

/-! ## The condition -/

/-- A name as `build_dir_entry` stores it and the readers read it back. -/
def storedName (name : Name) : Name := latin1ToString ((asBytes name).take 107)

/-- Two directories are given, the destination is not the entry itself, it does not lie below the
moved object, its name can be read back, and at most one object has it. -/
structure RenamesApart (v : Volume) (s : ℕ) (srcName : Name) (d : ℕ) (name : Name) : Prop where
  source : ∃ k, DirAt v s k
  destination : ∃ k, DirAt v d k
  distinct : ¬ (s = d ∧ nameEqCi srcName name = true)
  outside : ∀ e, FindsEntry v s srcName e → ¬ Walked v e.anode d
  readable : nameEqCi (storedName name) name = true
  single : ∀ entries, v.answer (Volume.listDirByAnode d) = .ok entries →
    (entries.filter fun e => nameEqCi e.name name).length ≤ 1

/-- Two names that compare equal to a third one. -/
theorem nameEqCi_join {a b c : Name} (ha : nameEqCi c a = true) (hb : nameEqCi c b = true) :
    nameEqCi a b = true := by
  unfold nameEqCi at ha hb ⊢
  rw [beq_iff_eq] at ha hb ⊢
  exact ha.symm.trans hb

/-! ## Trees -/

namespace Below

variable {K : ℕ → Option Bool} {L L' : ℕ → List Entry} {a s d q : ℕ} {e e' : Entry}

theorem mono {j : ℕ} (hsub : ∀ p y, y ∈ L p → y ∈ L' p) (h : Below L a j q) : Below L' a j q := by
  induction h with
  | self => exact .self
  | entry _ he ih => exact .entry ih (hsub _ _ he)

/-- The entry of an object without entries goes. -/
theorem without {x j : ℕ} (hempty : L x = [])
    (hkeep : ∀ p y, y ∈ L p → y.anode.toNat ≠ x → y ∈ L' p) (h : Below L a j q) (hq : q ≠ x) :
    Below L' a j q := by
  induction h with
  | self => exact .self
  | entry _ he ih =>
      rename_i j p y _
      refine .entry (ih fun hp => ?_) (hkeep p y he hq)
      rw [hp, hempty] at he
      cases he

section Move

variable (hkeep : ∀ p y, y ∈ L p → y.anode.toNat ≠ a → y ∈ L' p)
include hkeep

/-- What does not lie below the moved object is reached as before. -/
theorem outside {r j : ℕ} (h : Below L r j q) (hq : ∀ i, ¬ Below L a i q) : Below L' r j q := by
  induction h with
  | self => exact .self
  | entry _ he ih =>
      rename_i j p y _
      refine .entry (ih fun i hp => hq (i + 1) (.entry hp he)) (hkeep p y he fun heq => ?_)
      exact hq 0 (heq ▸ .self)

/-- What lies below the moved object still does: no entry there is for the object itself. -/
theorem inside (hF : Forest K L) (he : e ∈ L s) (ha : e.anode.toNat = a) {ks j : ℕ}
    (hs : Below L ANODE_ROOTDIR ks s) (h : Below L a j q) : Below L' a j q := by
  induction h with
  | self => exact .self
  | entry hp hy ih =>
      rename_i j p y
      refine .entry ih (hkeep p y hy fun heq => ?_)
      obtain rfl := hF.parent hy he (UInt32.toNat_inj.mp (heq.trans ha.symm))
      have hdeep := (Below.entry hs he).trans (ha.symm ▸ hp)
      have hlevel := depth hF hs hdeep
      omega

/-- An object moves to a directory that does not lie below it: nothing gets lost. -/
theorem moved (hF : Forest K L) (he : e ∈ L s) (ha : e.anode.toNat = a) (he' : e' ∈ L' d)
    (ha' : e'.anode.toNat = a) {ks kd k : ℕ} (hs : Below L ANODE_ROOTDIR ks s)
    (hd : Below L ANODE_ROOTDIR kd d) (hout : ∀ i, ¬ Below L a i d)
    (h : Below L ANODE_ROOTDIR k q) : ∃ k', Below L' ANODE_ROOTDIR k' q := by
  by_cases hq : ∃ i, Below L a i q
  · obtain ⟨i, hi⟩ := hq
    have hnew : Below L' ANODE_ROOTDIR (kd + 1) a := ha' ▸ .entry (outside hkeep hd hout) he'
    exact ⟨_, hnew.trans (inside hkeep hF he ha hs hi)⟩
  · exact ⟨k, outside hkeep h fun i hi => hq ⟨i, hi⟩⟩

end Move

end Below

/-! ## The entries -/

namespace Store

variable {S S₁ S' : Store} {T T₁ T' : Owners} {s d : ℕ} {srcName name : Name} {e e' : Entry}

/-- Two entries for one object are one. -/
theorem Settled.entry_inj (h : S.Settled T) {p q : ℕ} {x y : Entry}
    (hx : x ∈ entriesOf S.live T p) (hy : y ∈ entriesOf S.live T q) (heq : x.anode = y.anode) :
    p = q ∧ x = y := by
  obtain rfl := h.forest.parent hx hy heq
  exact ⟨rfl, List.inj_on_of_nodup_map (h.forest.nodup p) hx hy heq⟩

/-- The entry `x` of `p` goes when an object called `name` is deleted in `d`. -/
def Goes (S : Store) (T : Owners) (d : ℕ) (name : Name) (p : ℕ) (x : Entry) : Prop :=
  p = d ∧ (entriesOf S.live T d).find? (matchesName name) = some x

namespace Vacated

theorem settled (hv : Vacated S S₁ T T₁ d name) (h : S.Settled T) : S₁.Settled T₁ := by
  cases hv with
  | free store owners => exact store ▸ owners ▸ h
  | first _ _ _ _ _ gone owners => exact owners ▸ gone.settled

theorem data (hv : Vacated S S₁ T T₁ d name) : S₁.data = S.data ∧ S₁.geo = S.geo := by
  cases hv with
  | free store owners => exact ⟨congrArg Store.data store, congrArg Store.geo store⟩
  | first _ _ _ _ _ gone owners => exact ⟨gone.data, gone.geo⟩

theorem mem_of_mem (hv : Vacated S S₁ T T₁ d name) {p : ℕ} {x : Entry}
    (hx : x ∈ entriesOf S₁.live T₁ p) : x ∈ entriesOf S.live T p := by
  cases hv with
  | free store owners =>
      subst store owners
      exact hx
  | first r l₁ l₂ _ _ gone owners =>
      subst owners
      by_cases hp : p = d
      · subst hp
        rw [gone.entries] at hx
        rw [gone.old]
        exact Forest.mem_middle.mpr (Or.inr hx)
      · exact gone.entries_other p hp ▸ hx

theorem mem (hv : Vacated S S₁ T T₁ d name) {p : ℕ} {x : Entry}
    (hx : x ∈ entriesOf S.live T p) (hgo : ¬ S.Goes T d name p x) :
    x ∈ entriesOf S₁.live T₁ p := by
  cases hv with
  | free store owners =>
      subst store owners
      exact hx
  | first r l₁ l₂ hr hl₁ gone owners =>
      subst owners
      by_cases hp : p = d
      · subst hp
        rw [gone.entries]
        rw [gone.old] at hx
        rcases Forest.mem_middle.mp hx with rfl | hx
        · exact absurd ⟨rfl, gone.old ▸ find?_middle hr hl₁⟩ hgo
        · exact hx
      · exact (gone.entries_other p hp).symm ▸ hx

/-- The objects that stay keep their chains. -/
theorem owner (hv : Vacated S S₁ T T₁ d name) (h : S.Settled T) {p : ℕ} {x : Entry}
    (hx : x ∈ entriesOf S.live T p) (hgo : ¬ S.Goes T d name p x) :
    T₁ x.anode.toNat = T x.anode.toNat := by
  cases hv with
  | free store owners => exact congrFun owners _
  | first r l₁ l₂ hr hl₁ gone owners =>
      have hmem : r ∈ entriesOf S.live T d := gone.old ▸ Forest.mem_middle.mpr (Or.inl rfl)
      rw [owners, Function.update_of_ne]
      intro heq
      obtain ⟨rfl, rfl⟩ := h.entry_inj hx hmem (UInt32.toNat_inj.mp heq)
      exact hgo ⟨rfl, gone.old ▸ find?_middle hr hl₁⟩

/-- The name is free afterwards when one object had it at most. -/
theorem none (hv : Vacated S S₁ T T₁ d name)
    (hone : ((entriesOf S.live T d).filter (matchesName name)).length ≤ 1) :
    ∀ x ∈ entriesOf S₁.live T₁ d, matchesName name x = false := by
  cases hv with
  | free store owners none =>
      subst store owners
      exact none
  | first r l₁ l₂ hr hl₁ gone owners =>
      subst owners
      intro x hx
      rw [gone.entries] at hx
      rw [gone.old, List.filter_append, List.filter_cons_of_pos hr, List.length_append,
        List.length_cons] at hone
      rcases List.mem_append.mp hx with hx | hx
      · exact hl₁ x hx
      · refine Bool.eq_false_iff.mpr fun hmatch => ?_
        have hpos := List.length_pos_of_mem (List.mem_filter.mpr ⟨hx, hmatch⟩)
        omega

/-- What can be reached, but for the deleted object, still can. -/
theorem below (hv : Vacated S S₁ T T₁ d name) (h : S.Settled T) {k q : ℕ}
    (hq : Below (entriesOf S.live T) ANODE_ROOTDIR k q)
    (hdir : q = d ∨ ∃ x, x ∈ entriesOf S.live T q) :
    Below (entriesOf S₁.live T₁) ANODE_ROOTDIR k q := by
  cases hv with
  | free store owners =>
      subst store owners
      exact hq
  | first r l₁ l₂ hr hl₁ gone owners =>
      refine hq.without gone.empty (fun p y hy hne => ?_) ?_
      · refine mem (.first r l₁ l₂ hr hl₁ gone owners) hy ?_
        rintro ⟨rfl, hfind⟩
        rw [gone.old, find?_middle hr hl₁] at hfind
        cases hfind
        exact hne rfl
      · rintro rfl
        rcases hdir with hd | ⟨x, hx⟩
        · exact gone.parent hd
        · rw [gone.empty] at hx
          cases hx

end Vacated

/-- The entry `e` of `s` is gone, and its object has the entry `e'` of `d`; everything else can be
reached as before. -/
structure Renamed (S S' : Store) (T T' : Owners) (s : ℕ) (srcName : Name) (d : ℕ) (name : Name)
    (e e' : Entry) : Prop where
  settled : S'.Settled T'
  source : (entriesOf S.live T s).find? (matchesName srcName) = some e
  result : (entriesOf S'.live T' d).find? (matchesName name) = some e'
  anode : e'.anode = e.anode
  stays : ∀ p x, x ∈ entriesOf S.live T p → ¬ S.Goes T d name p x → x ≠ e →
    x ∈ entriesOf S'.live T' p
  only : ∀ p x, x ∈ entriesOf S'.live T' p →
    (p = d ∧ x = e') ∨ (x ∈ entriesOf S.live T p ∧ x.anode ≠ e.anode)
  owner : ∀ p x, x ∈ entriesOf S.live T p → ¬ S.Goes T d name p x → x.isDir = false →
    T' x.anode.toNat = T x.anode.toNat
  reach : ∀ k q, Below (entriesOf S.live T) ANODE_ROOTDIR k q →
    (q = d ∨ ∃ x, x ∈ entriesOf S.live T q) → ∃ k', Below (entriesOf S'.live T') ANODE_ROOTDIR k' q
  dir : kinds T' d = some true
  data : S'.data = S.data
  geo : S'.geo = S.geo

theorem renamed_of_moved (h : S.Settled T) (hv : Vacated S S₁ T T₁ d name)
    (hm : Moved S₁ S' T₁ T' s d e e') (hplaced : Placed S' T' s srcName d e')
    (he : (entriesOf S.live T s).find? (matchesName srcName) = some e)
    (hname : matchesName name e' = true) (hdist : s = d → matchesName srcName e' = false)
    (hone : ((entriesOf S.live T d).filter (matchesName name)).length ≤ 1) {ks kd : ℕ}
    (hs : Below (entriesOf S.live T) ANODE_ROOTDIR ks s)
    (hd : Below (entriesOf S.live T) ANODE_ROOTDIR kd d)
    (hout : ∀ i, ¬ Below (entriesOf S.live T) e.anode.toNat i d) :
    Renamed S S' T T' s srcName d name e e' := by
  have hmem := List.mem_of_find?_eq_some he
  have hnew := hplaced hdist
  have hset := hv.settled h
  -- the entry of the moved object is the new one
  have hlast : ∀ p x, x ∈ entriesOf S'.live T' p → x.anode = e.anode → p = d ∧ x = e' := by
    intro p x hx heq
    exact hm.settled.entry_inj hx hnew (heq.trans hm.anode.symm)
  have hout₁ : ∀ i, ¬ Below (entriesOf S₁.live T₁) e.anode.toNat i d := fun i hi =>
    hout i (hi.mono fun p x hx => hv.mem_of_mem hx)
  have hs₁ := hv.below h hs (Or.inr ⟨e, hmem⟩)
  have hd₁ := hv.below h hd (Or.inl rfl)
  refine
    { settled := hm.settled
      source := he
      result := ?_
      anode := hm.anode
      stays := fun p x hx hgo hne => ?_
      only := fun p x hx => ?_
      owner := fun p x hx hgo hfile => ?_
      reach := fun k q hq hdir => ?_
      dir := ?_
      data := hm.data.trans hv.data.1
      geo := hm.geo.trans hv.data.2 }
  · obtain ⟨y, hy⟩ := Option.isSome_iff_exists.mp
      (List.find?_isSome.mpr ⟨e', hnew, hname⟩)
    rw [hy]
    rcases hm.entries d y (List.mem_of_find?_eq_some hy) with hold | ⟨-, rfl⟩
    · have hno := hv.none hone y hold
      rw [List.find?_some hy] at hno
      cases hno
    · rfl
  · refine hm.stays p x (hv.mem hx hgo) fun heq => hne (h.entry_inj hx hmem heq).2
  · by_cases heq : x.anode = e.anode
    · exact Or.inl (hlast p x hx heq)
    · rcases hm.entries p x hx with hold | hnew
      · exact Or.inr ⟨hv.mem_of_mem hold, heq⟩
      · exact Or.inl hnew
  · have hx₁ := hv.mem hx hgo
    refine (hm.others _ fun heq => ?_).trans (hv.owner h hx hgo)
    have hkind := (hset.forest.entry hx₁).1
    rw [heq, hm.dir, hfile] at hkind
    cases hkind
  · exact Below.moved (fun p y hy hne => hm.stays p y hy fun heq => hne (congrArg UInt32.toNat heq))
      hset.forest hm.old rfl hnew (congrArg UInt32.toNat hm.anode) hs₁ hd₁ hout₁
      (hv.below h hq hdir)
  · rw [hm.kinds]
    exact hm.dir

/-- Nothing can be reached that could not be reached before. -/
theorem Renamed.reached (hr : Renamed S S' T T' s srcName d name e e') {ks k q : ℕ}
    (hs : Below (entriesOf S.live T) ANODE_ROOTDIR ks s)
    (hq : Below (entriesOf S'.live T') ANODE_ROOTDIR k q) :
    ∃ k', Below (entriesOf S.live T) ANODE_ROOTDIR k' q := by
  induction hq with
  | self => exact ⟨0, .self⟩
  | entry _ hy ih =>
      obtain ⟨k', hp⟩ := ih
      rcases hr.only _ _ hy with ⟨-, rfl⟩ | ⟨hold, -⟩
      · rw [hr.anode]
        exact ⟨_, .entry hs (List.mem_of_find?_eq_some hr.source)⟩
      · exact ⟨_, .entry hp hold⟩

end Store

/-! ## The volume on the device -/

section Device

variable {v v' : Volume} {g : Geometry} {S S' : Store} {T T' : Owners} {data : ℕ → Sector}
variable {s d : ℕ} {srcName name : Name} {e e' : Entry}

theorem DirAt.to_below (hv : VolRep v g S.disk data) (h : S.Settled T) {k q : ℕ} (hq : DirAt v q k) :
    Below (entriesOf S.live T) ANODE_ROOTDIR k q ∧ kinds T q = some true := by
  induction hq with
  | root => exact ⟨.self, h.forest.root⟩
  | sub _ hlist he hdir ih =>
      rw [h.listed hv ih.2] at hlist
      cases hlist
      obtain ⟨x, hx, rfl⟩ := List.mem_map.mp he
      exact ⟨.entry ih.1 hx, (h.forest.entry hx).1.trans (congrArg some hdir)⟩

theorem Walked.of_below (hv : VolRep v g S.disk data) (h : S.Settled T) {a k q : ℕ}
    (hq : Below (entriesOf S.live T) a k q) (hd : kinds T q = some true) : Walked v a q := by
  induction hq with
  | self => exact .start
  | entry _ he ih =>
      have hp := kinds_of_mem he
      exact .sub (ih hp) (h.listed hv hp) (List.mem_map_of_mem he) (h.isDir_of_kinds he hd)

theorem hasEntry_iff (hv : VolRep v g S.disk data) (h : S.Settled T) {p : ℕ} {x : DirEntry} :
    HasEntry v p x ↔ ∃ k y, Below (entriesOf S.live T) ANODE_ROOTDIR k p ∧
      y ∈ entriesOf S.live T p ∧ x = y.toDirEntry := by
  constructor
  · rintro ⟨⟨k, hk⟩, es, hes, hx⟩
    obtain ⟨hbelow, hp⟩ := hk.to_below hv h
    rw [h.listed hv hp] at hes
    cases hes
    obtain ⟨y, hy, rfl⟩ := List.mem_map.mp hx
    exact ⟨k, y, hbelow, hy, rfl⟩
  · rintro ⟨k, y, hbelow, hy, rfl⟩
    have hp := kinds_of_mem hy
    exact ⟨⟨k, .of_below hv h hbelow hp⟩, _, h.listed hv hp, List.mem_map_of_mem hy⟩

theorem findsEntry_iff (hv : VolRep v g S.disk data) (h : S.Settled T) {p : ℕ}
    (hp : kinds T p = some true) {x : DirEntry} : FindsEntry v p name x ↔
      ∃ y, (entriesOf S.live T p).find? (matchesName name) = some y ∧ x = y.toDirEntry := by
  have hfind : ((entriesOf S.live T p).map Entry.toDirEntry).find? (fun e => nameEqCi e.name name) =
      ((entriesOf S.live T p).find? (matchesName name)).map Entry.toDirEntry :=
    Holds.find?_map_toDirEntry _ _
  constructor
  · rintro ⟨es, hes, hx⟩
    rw [h.listed hv hp] at hes
    cases hes
    rw [hfind] at hx
    obtain ⟨y, hy, rfl⟩ := Option.map_eq_some_iff.mp hx
    exact ⟨y, hy, rfl⟩
  · rintro ⟨y, hy, rfl⟩
    refine ⟨_, h.listed hv hp, ?_⟩
    rw [hfind, hy]
    rfl

/-- A file with the same chain and the same data area. -/
theorem sameObject_of (h : S.Settled T) (h' : S'.Settled T') (hv : VolRep v g S.disk S.data)
    (hv' : VolRep v' g S'.disk S'.data) (hgeo : S.geo = g) (hgeo' : S'.geo = S.geo)
    (hdata : S'.data = S.data) {p : ℕ} {x x' : Entry} (hx : x ∈ entriesOf S.live T p)
    (hanode : x'.anode = x.anode) (htype : x'.entryType = x.entryType)
    (hsize : x'.fileSize = x.fileSize)
    (howner : x.isDir = false → T' x.anode.toNat = T x.anode.toNat) :
    SameObject v v' x.toDirEntry x'.toDirEntry where
  anode := congrArg UInt32.toNat hanode
  entryType := htype
  fileSize := hsize
  contents := by
    intro hfile
    subst hgeo
    obtain ⟨n, hn, hnd⟩ := h.node hx
    have hkind : n.isDir = false := hnd.trans hfile
    have hread' := h'.read_eq (hgeo' ▸ hv') ((howner hfile).trans hn) hkind x.fileSize
    rw [hdata] at hread'
    exact ⟨_, h.read_eq hv hn hkind x.fileSize, hread'⟩

/-- What a renaming of the entries is on the volumes. -/
theorem Store.Renamed.keeps (hr : Renamed S S' T T' s srcName d name e e') (h : S.Settled T)
    (hv : VolRep v g S.disk S.data) (hv' : VolRep v' g S'.disk S'.data) (hgeo : S.geo = g)
    (hs : ∃ k, DirAt v s k) (hd : ∃ k, DirAt v d k)
    (hdist : ¬ (s = d ∧ nameEqCi srcName name = true)) (htype : e'.entryType = e.entryType)
    (hsize : e'.fileSize = e.fileSize) : RenameKeeps v v' s srcName d name := by
  obtain ⟨ks, hks⟩ := hs
  obtain ⟨kd, hkd⟩ := hd
  obtain ⟨hsb, hsk⟩ := hks.to_below hv h
  obtain ⟨hdb, hdk⟩ := hkd.to_below hv h
  have hmem := List.mem_of_find?_eq_some hr.source
  have hnew := List.mem_of_find?_eq_some hr.result
  have hsrc : FindsEntry v s srcName e.toDirEntry := (findsEntry_iff hv h hsk).mpr ⟨e, hr.source, rfl⟩
  have hdst : FindsEntry v' d name e'.toDirEntry :=
    (findsEntry_iff hv' hr.settled hr.dir).mpr ⟨e', hr.result, rfl⟩
  -- an entry that goes is the replaced destination
  have hgoes : ∀ p x, x ∈ entriesOf S.live T p → S.Goes T d name p x →
      IsReplaced v s srcName d name p x.toDirEntry := by
    rintro p x hx ⟨rfl, hfind⟩
    refine ⟨rfl, (findsEntry_iff hv h hdk).mpr ⟨x, hfind, rfl⟩, ?_⟩
    rintro ⟨rfl, es, -, hes⟩
    have hold := List.find?_some hes
    have hnew := List.find?_some hfind
    exact hdist ⟨rfl, nameEqCi_join hold hnew⟩
  have hego : ¬ S.Goes T d name s e := by
    rintro ⟨rfl, hfind⟩
    exact (hgoes s e hmem ⟨rfl, hfind⟩).2.2 ⟨rfl, hsrc⟩
  have hsame := sameObject_of h hr.settled hv hv' hgeo hr.geo hr.data hmem hr.anode htype hsize
    (hr.owner s e hmem hego)
  have hplace : HasEntry v' d e'.toDirEntry := by
    obtain ⟨k', hk'⟩ := hr.reach kd d hdb (Or.inl rfl)
    exact (hasEntry_iff hv' hr.settled).mpr ⟨k', e', hk', hnew, rfl⟩
  have hstay : ∀ k p x, Below (entriesOf S.live T) ANODE_ROOTDIR k p → x ∈ entriesOf S.live T p →
      ¬ IsReplaced v s srcName d name p x.toDirEntry → x ≠ e → HasEntry v' p x.toDirEntry := by
    intro k p x hp hx hrep hne
    obtain ⟨k', hk'⟩ := hr.reach k p hp (Or.inr ⟨x, hx⟩)
    exact (hasEntry_iff hv' hr.settled).mpr
      ⟨k', x, hk', hr.stays p x hx (fun hgo => hrep (hgoes p x hx hgo)) hne, rfl⟩
  constructor
  case kept =>
    intro p x hx hrep
    obtain ⟨k, y, hp, hy, rfl⟩ := (hasEntry_iff hv h).mp hx
    by_cases hye : y = e
    · subst hye
      exact ⟨d, e'.toDirEntry, hplace, hsame⟩
    · refine ⟨p, y.toDirEntry, hstay k p y hp hy hrep hye, ?_⟩
      exact sameObject_of h hr.settled hv hv' hgeo hr.geo hr.data hy rfl rfl rfl
        (hr.owner p y hy fun hgo => hrep (hgoes p y hy hgo))
  case stays =>
    intro p x hx hrep
    obtain ⟨k, y, hp, hy, rfl⟩ := (hasEntry_iff hv h).mp hx
    by_cases hye : y = e
    · subst hye
      obtain ⟨rfl, -⟩ := h.entry_inj hy hmem rfl
      exact Or.inl ⟨rfl, hsrc⟩
    · exact Or.inr (hstay k p y hp hy hrep hye)
  case only =>
    intro p x hx
    obtain ⟨k, y, hp, hy, rfl⟩ := (hasEntry_iff hv' hr.settled).mp hx
    rcases hr.only p y hy with ⟨rfl, rfl⟩ | ⟨hold, -⟩
    · exact Or.inl ⟨rfl, hdst⟩
    · obtain ⟨k', hk'⟩ := hr.reached hsb hp
      exact Or.inr ((hasEntry_iff hv h).mpr ⟨k', y, hk', hold, rfl⟩)
  case found => exact ⟨_, _, hsrc, hdst, hsame⟩
  case gone =>
    intro _ f x hf hx hmatch heq
    obtain ⟨f', hf', rfl⟩ := (findsEntry_iff hv h hsk).mp hf
    rw [hr.source] at hf'
    cases hf'
    obtain ⟨k, y, hp, hy, rfl⟩ := (hasEntry_iff hv' hr.settled).mp hx
    rcases hr.only s y hy with ⟨rfl, rfl⟩ | ⟨-, hne⟩
    · -- the new entry does not have the old name
      have hname := List.find?_some hr.result
      exact hdist ⟨rfl, nameEqCi_join hmatch hname⟩
    · exact hne (UInt32.toNat_inj.mp heq)

end Device

/-! ## Runs -/

theorem text_build {now : Datestamp} {name : Name} {ty : ℤ} {anode fsize prot : ℕ} :
    (Entry.build now name ty anode fsize prot).text = storedName name := by
  rw [Entry.text, Entry.build]
  rfl

/-- The store that a volume opened on the device stands for. -/
theorem Rep.volRep {g : Geometry} {w : Writer} {S : Store} {v : Volume} (h : Rep g w S)
    (hv : Volume.fromDevice w.vol.dev = .ok v) : VolRep v g S.disk S.data := by
  obtain ⟨v', hv', hrep, hdev, -⟩ := h.reopen
  rw [hv] at hv'
  cases hv'
  obtain rfl := h.geo
  refine { hrep with data := fun b hlo hhi => ?_ }
  rw [hdev]
  exact h.vol.data b hlo hhi

/-- One renaming. -/
theorem Rep.renameIn_keeps {g : Geometry} {w w' : Writer} {S : Store} {T : Owners} {v : Volume}
    {s d : ℕ} {srcName name : Name} (hw : Rep g w S) (h : S.Settled T)
    (hv : Volume.fromDevice w.vol.dev = .ok v)
    (hrun : Writer.renameIn s srcName d name w = .ok () w')
    (hap : RenamesApart v s srcName d name) :
    ∃ v', Volume.fromDevice w'.vol.dev = .ok v' ∧ RenameKeeps v v' s srcName d name := by
  have hrep := hw.volRep hv
  obtain ⟨ks, hks⟩ := hap.source
  obtain ⟨kd, hkd⟩ := hap.destination
  obtain ⟨hsb, hsk⟩ := hks.to_below hrep h
  obtain ⟨hdb, hdk⟩ := hkd.to_below hrep h
  obtain ⟨n, hn, hnd⟩ := Option.map_eq_some_iff.mp hsk
  obtain ⟨m, hm, hmd⟩ := Option.map_eq_some_iff.mp hdk
  obtain ⟨S', -, hw', S₁, T₁, T', e, now, he, -, hvac, hmoved, hplaced⟩ :=
    (hw.renameIn s srcName d name).follow (post_renameIn h hn hnd hm hmd hap.distinct) hrun
  have hname : matchesName name (Entry.build now name e.entryType e.anode.toNat e.fileSize
      e.protection.toNat) = true := by
    unfold matchesName
    rw [text_build]
    exact hap.readable
  have hdist : s = d → matchesName srcName (Entry.build now name e.entryType e.anode.toNat
      e.fileSize e.protection.toNat) = false := fun heq =>
    Bool.eq_false_iff.mpr fun hmatch => hap.distinct ⟨heq, nameEqCi_join hmatch hname⟩
  have hone : ((entriesOf S.live T d).filter (matchesName name)).length ≤ 1 := by
    have hle := hap.single _ (h.listed hrep hdk)
    rw [List.filter_map, List.length_map] at hle
    exact hle
  have hout : ∀ i, ¬ Below (entriesOf S.live T) e.anode.toNat i d := fun i hi =>
    hap.outside e.toDirEntry ((findsEntry_iff hrep h hsk).mpr ⟨e, he, rfl⟩)
      (.of_below hrep h hi hdk)
  have hren := renamed_of_moved h hvac hmoved hplaced he hname hdist hone hsb hdb hout
  obtain ⟨v', hv', -⟩ := hw'.reopen
  exact ⟨v', hv', hren.keeps h hrep (hw'.volRep hv') hw.geo ⟨ks, hks⟩ ⟨kd, hkd⟩ hap.distinct
    (Entry.entryType_rebuild e) (Entry.fileSize_rebuild e)⟩

/-- After a run from a fresh format, a renaming to an entry of its own, not below the moved
object, loses nothing. -/
theorem rename_keeps {dev dev' : Device} {totalBlocks : ℕ} {opts : FormatOptions}
    {now : Datestamp} {res : FormatResult} {clock : ℕ → Datestamp} {v : Volume} {w : Writer}
    (hformat : Format.formatWithSize totalBlocks opts now dev = .ok res dev')
    (hsound : dev.Sound) (htotal : totalBlocks ≤ dev.total)
    (hsmall : totalBlocks ≤ Format.MAXSMALLDISK) (hv : Volume.fromDevice dev' = .ok v)
    (hw : Writer.open v clock = .ok w) :
    ∃ g : Geometry, g.disksize = totalBlocks ∧ Rep g w (g.freshStore dev'.sectors clock) ∧
      ∀ calls w₁ v₁, calls.forM Call.run w = .ok () w₁ →
        Along Call.spec (fun c S => S.Affords c) calls (g.freshStore dev'.sectors clock) →
        Volume.fromDevice w₁.vol.dev = .ok v₁ →
        ∀ s srcName d name w₂, Writer.renameIn s srcName d name w₁ = .ok () w₂ →
          RenamesApart v₁ s srcName d name →
          ∃ v₂, Volume.fromDevice w₂.vol.dev = .ok v₂ ∧ RenameKeeps v₁ v₂ s srcName d name := by
  obtain ⟨g, hsize, hrep⟩ := rep_of_format hformat hsound htotal hsmall hv hw
  refine ⟨g, hsize, hrep, fun calls w₁ v₁ hrun halong hv₁ s srcName d name w₂ hren hap => ?_⟩
  obtain ⟨S, T, -, hS, hset⟩ := hrep.run_calls (g.settled_freshStore _ _) hrun halong
  exact hS.renameIn_keeps hset hv₁ hren hap

/-! ### A directory in the root -/

/-- Whether the root directory has one directory `a`, which is empty and has the anode 6, and
nothing called `b`. -/
def holdsOnlyA (w : Writer) : Bool :=
  match Volume.fromDevice w.vol.dev with
  | .error _ => false
  | .ok v =>
      match v.answer (Volume.listDirByAnode 5), v.answer (Volume.listDirByAnode 6) with
      | .ok [e], .ok [] => e.name == ['a'] && e.isDir && e.anode == 6
      | _, _ => false

theorem of_holdsOnlyA {w : Writer} (h : holdsOnlyA w = true) : ∃ v e,
    Volume.fromDevice w.vol.dev = .ok v ∧ v.answer (Volume.listDirByAnode 5) = .ok [e] ∧
      v.answer (Volume.listDirByAnode 6) = .ok [] ∧ e.name = ['a'] ∧ e.anode = 6 := by
  unfold holdsOnlyA at h
  split at h
  · cases h
  · rename_i v hv
    split at h
    · rename_i e hroot hsub
      rw [Bool.and_eq_true, Bool.and_eq_true, beq_iff_eq, beq_iff_eq] at h
      exact ⟨v, e, hv, hroot, hsub, h.1.1, h.2⟩
    · cases h

/-- The run that makes the directory, and a renaming that succeeds. -/
def renamed (s : ℕ) (srcName : Name) (d : ℕ) (name : Name) : Option (Writer × Writer) :=
  match smallSession [.createDir ['a']] with
  | none => none
  | some w =>
      match Writer.renameIn s srcName d name w with
      | .ok _ w' => some (w, w')
      | .error _ _ => none

theorem of_renamed {s d : ℕ} {srcName name : Name} {w w' : Writer}
    (h : renamed s srcName d name = some (w, w')) :
    smallSession [.createDir ['a']] = some w ∧ Writer.renameIn s srcName d name w = .ok () w' := by
  unfold renamed at h
  split at h
  · cases h
  · rename_i w₁ hw
    split at h
    · rename_i u w₂ hrun
      cases h
      exact ⟨hw, hrun⟩
    · cases h

/-- Whether the root directory is empty. -/
def rootEmpty (w : Writer) : Bool :=
  match Volume.fromDevice w.vol.dev with
  | .error _ => false
  | .ok v =>
      match v.answer (Volume.listDirByAnode 5) with
      | .ok [] => true
      | _ => false

def renamedToB : Evaluated (renamed 5 ['a'] 5 ['b']) fun r => holdsOnlyA r.1 :=
  .of (by decide +kernel)

def renamedToCapital :
    Evaluated (renamed 5 ['a'] 5 ['A']) fun r => holdsOnlyA r.1 && rootEmpty r.2 :=
  .of (by decide +kernel)

def movedIntoItself :
    Evaluated (renamed 5 ['a'] 6 ['b']) fun r => holdsOnlyA r.1 && rootEmpty r.2 :=
  .of (by decide +kernel)

/-- The directory `a` gets the name `b`. -/
theorem rename_keeps_directory : ∃ w w' v v', smallSession [.createDir ['a']] = some w ∧
    Writer.renameIn 5 ['a'] 5 ['b'] w = .ok () w' ∧ Volume.fromDevice w.vol.dev = .ok v ∧
    Volume.fromDevice w'.vol.dev = .ok v' ∧ RenameKeeps v v' 5 ['a'] 5 ['b'] := by
  obtain ⟨⟨w, w'⟩, hr, honly⟩ := renamedToB
  obtain ⟨hsession, hrename⟩ := of_renamed hr
  obtain ⟨v, e, hv, hroot, hsub, hname, hanode⟩ := of_holdsOnlyA honly
  obtain ⟨res, d', v₀, w₀, hformat, hv₀, hw₀, hcalls⟩ := of_session hsession
  obtain ⟨g, -, -, hkeeps⟩ := rename_keeps hformat (sound_blankDevice 67) (le_refl 67) (by decide)
    hv₀ hw₀
  have hfind : ∀ x, FindsEntry v 5 ['a'] x → x = e := by
    rintro x ⟨es, hes, hx⟩
    rw [hroot] at hes
    cases hes
    exact List.mem_singleton.mp (List.mem_of_find?_eq_some hx)
  have hap : RenamesApart v 5 ['a'] 5 ['b'] :=
    { source := ⟨0, .root⟩
      destination := ⟨0, .root⟩
      distinct := by decide
      outside := by
        intro x hx hwalk
        rw [hfind x hx, hanode] at hwalk
        rcases hwalk.cases_head with heq | ⟨es, f, hes, hf, -⟩
        · cases heq
        · rw [hsub] at hes
          cases hes
          cases hf
      readable := by decide
      single := by
        intro es hes
        rw [hroot] at hes
        cases hes
        exact (List.length_filter_le _ _) }
  obtain ⟨v', hv', hk⟩ := hkeeps _ w v hcalls ⟨g.affords_createDir d'.sectors _, fun _ _ => trivial⟩
    hv 5 ['a'] 5 ['b'] w' hrename hap
  exact ⟨w, w', v, v', hsession, hrename, hv, hv', hk⟩

theorem DirAt.eq_root {v : Volume} (hroot : v.answer (Volume.listDirByAnode ANODE_ROOTDIR) = .ok [])
    {d k : ℕ} (hd : DirAt v d k) : d = ANODE_ROOTDIR := by
  induction hd with
  | root => rfl
  | sub _ hlist he _ ih =>
      rw [ih, hroot] at hlist
      cases hlist
      cases he

/-- When the root directory is empty afterwards, the directory `a` is lost. -/
theorem lost_of_rootEmpty {d : ℕ} {name : Name}
    (h : Evaluated (renamed 5 ['a'] d name) fun r => holdsOnlyA r.1 && rootEmpty r.2) :
    ∃ w w' v v', smallSession [.createDir ['a']] = some w ∧
      Writer.renameIn 5 ['a'] d name w = .ok () w' ∧ Volume.fromDevice w.vol.dev = .ok v ∧
      Volume.fromDevice w'.vol.dev = .ok v' ∧ ¬ RenameKeeps v v' 5 ['a'] d name := by
  obtain ⟨⟨w, w'⟩, hr, hboth⟩ := h
  obtain ⟨hsession, hrename⟩ := of_renamed hr
  rw [Bool.and_eq_true] at hboth
  obtain ⟨v, e, hv, hroot, -, hname, -⟩ := of_holdsOnlyA hboth.1
  have hempty := hboth.2
  unfold rootEmpty at hempty
  split at hempty
  · cases hempty
  · rename_i v' hv'
    split at hempty
    · rename_i hlist
      refine ⟨w, w', v, v', hsession, hrename, hv, hv', fun hk => ?_⟩
      have hfind : FindsEntry v 5 ['a'] e := by
        refine ⟨[e], hroot, ?_⟩
        have hmatch : nameEqCi e.name ['a'] = true := by
          rw [hname]
          decide
        rw [List.find?_cons, hmatch]
      -- the source itself is not a replaced destination
      have hnot : ¬ IsReplaced v 5 ['a'] d name 5 e := fun hrep => hrep.2.2 ⟨hrep.1, hfind⟩
      obtain ⟨p', x', ⟨⟨k, hdir⟩, es, hes, hx⟩, -⟩ :=
        hk.kept 5 e ⟨⟨0, .root⟩, [e], hroot, List.mem_singleton_self e⟩ hnot
      obtain rfl := hdir.eq_root hlist
      have heq : Except.ok [] = Except.ok es := hlist.symm.trans hes
      cases heq
      cases hx
    · cases hempty

/-- A directory is renamed onto itself, in capital letters, or moved into itself: it is lost. -/
theorem rename_loses : (∃ w w' v v', smallSession [.createDir ['a']] = some w ∧
      Writer.renameIn 5 ['a'] 5 ['A'] w = .ok () w' ∧ Volume.fromDevice w.vol.dev = .ok v ∧
      Volume.fromDevice w'.vol.dev = .ok v' ∧ ¬ RenameKeeps v v' 5 ['a'] 5 ['A']) ∧
    ∃ w w' v v', smallSession [.createDir ['a']] = some w ∧
      Writer.renameIn 5 ['a'] 6 ['b'] w = .ok () w' ∧ Volume.fromDevice w.vol.dev = .ok v ∧
      Volume.fromDevice w'.vol.dev = .ok v' ∧ ¬ RenameKeeps v v' 5 ['a'] 6 ['b'] :=
  ⟨lost_of_rootEmpty renamedToCapital, lost_of_rootEmpty movedIntoItself⟩

end Pfs3
