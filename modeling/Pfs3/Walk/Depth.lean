import Pfs3.Store.Rep
import Pfs3.Walk.Readers

/-!
# Depth of the tree walks

Both walks bound their recursion by the slashes of a display path.  A nested call adds a slash
for every directory with a name, so without empty names the calls nest at most
`MAX_DIR_DEPTH + 1` deep in the call a walk starts with.
-/

namespace Pfs3

open ByteList BlockCache Stop

/-! ## Display paths -/

/-- Slashes of a path, one at its end left out. -/
def pathDepth (path : Name) : ℕ := path.count '/' - if path.getLast? = some '/' then 1 else 0

theorem pathDepth_le (path : Name) : pathDepth path ≤ path.count '/' := Nat.sub_le _ _

/-- A directory with a name lies deeper than its parent. -/
theorem pathDepth_lt_join (path : Name) {name : Name} (h : name ≠ []) :
    pathDepth path < pathDepth (joinPfs3Path path name) := by
  have hlast : (joinPfs3Path path name).getLast? = name.getLast? := by
    unfold joinPfs3Path
    split
    · rw [List.getLast?_append_of_ne_nil _ h]
    · rw [List.getLast?_append_of_ne_nil _ (List.cons_ne_nil _ _), List.getLast?_cons_of_ne_nil h]
  have hend : name.getLast? = some '/' → 1 ≤ name.count '/' := fun hl =>
    List.count_pos_iff.mpr (List.mem_of_getLast? hl)
  unfold pathDepth
  rw [hlast]
  unfold joinPfs3Path
  by_cases hp : path.getLast? = some '/'
  · have hcount : 1 ≤ path.count '/' := List.count_pos_iff.mpr (List.mem_of_getLast? hp)
    rw [if_pos hp, if_pos hp, List.count_append]
    split
    · rename_i hn
      have := hend hn
      omega
    · omega
  · rw [if_neg hp, if_neg hp, List.count_append, List.count_cons_self]
    split
    · rename_i hn
      have := hend hn
      omega
    · omega

/-! ## Nested directories -/

/-- The answer of a reader on an opened volume. -/
def Volume.answer {α : Type} (v : Volume) (m : VolumeM α) : Except Error α :=
  match m v with
  | .ok a _ => .ok a
  | .error (.err e) _ => .error e
  | .error .panic _ => .error .io

theorem answer_of_reads {α β : Type} {I : Volume → Prop} {Q : α → β → Prop} {m : VolumeM α} {b : β}
    {v : Volume} (h : Reads I Q m (.ok b)) (hv : I v) : ∃ a, v.answer m = .ok a ∧ Q a b := by
  obtain ⟨a, v', hrun, hQ, -⟩ := h.ok hv
  exact ⟨a, by simp only [Volume.answer, hrun], hQ⟩

/-- The directories that a walk from `start` meets. -/
inductive Walked (v : Volume) (start : ℕ) : ℕ → Prop
  | start : Walked v start start
  | sub {dirAnode : ℕ} {entries : List DirEntry} {e : DirEntry} (dir : Walked v start dirAnode)
      (list : v.answer (Volume.listDirByAnode dirAnode) = .ok entries) (mem : e ∈ entries)
      (isDir : e.isDir = true) : Walked v start e.anode

/-- What a walk meets is the start, or met from one of its subdirectories. -/
theorem Walked.cases_head {v : Volume} {start d : ℕ} (h : Walked v start d) : d = start ∨
    ∃ entries e, v.answer (Volume.listDirByAnode start) = .ok entries ∧ e ∈ entries ∧
      e.isDir = true ∧ Walked v e.anode d := by
  induction h with
  | start => exact Or.inl rfl
  | sub hd hl he hdir ih =>
      rename_i dirAnode entries e
      right
      rcases ih with rfl | ⟨es, f, hes, hf, hfdir, hwalk⟩
      · exact ⟨entries, e, hl, he, hdir, .start⟩
      · exact ⟨es, f, hes, hf, hfdir, .sub hwalk hl he hdir⟩

/-- `names` name directories nested in one another, from `dirAnode` with the display path
`path` on, each entered by the walk: the path has not too many slashes, the directory can be
listed, and `enter` accepts the entry's anode. -/
def Nested (v : Volume) (enter : ℕ → Prop) : (dirAnode : ℕ) → (path : Name) → List Name → Prop
  | _, _, [] => True
  | dirAnode, path, name :: rest =>
      path.count '/' ≤ MAX_DIR_DEPTH ∧
        ∃ entries, v.answer (Volume.listDirByAnode dirAnode) = .ok entries ∧
          ∃ e ∈ entries, e.isDir = true ∧ e.name = name ∧ enter e.anode ∧
            Nested v enter e.anode (joinPfs3Path path name) rest

/-- Without empty names the last path but one has a slash for each name. -/
theorem Nested.depth {v : Volume} {enter : ℕ → Prop} {names : List Name} : ∀ {dirAnode : ℕ}
    {path : Name}, Nested v enter dirAnode path names → [] ∉ names → names ≠ [] →
    pathDepth path + names.length ≤ MAX_DIR_DEPTH + 1 := by
  induction names with
  | nil => exact fun _ _ hne => absurd rfl hne
  | cons name rest ih =>
      intro dirAnode path h hnames _
      obtain ⟨hpath, entries, -, e, -, -, -, -, hrest⟩ := h
      have hname : name ≠ [] := fun hz => hnames (hz ▸ List.mem_cons_self)
      have hdeeper := pathDepth_lt_join path hname
      have hle := pathDepth_le path
      rcases rest with _ | ⟨name', rest⟩
      · rw [List.length_singleton]
        omega
      · have hdepth := ih hrest (fun hm => hnames (List.mem_cons_of_mem _ hm))
          (List.cons_ne_nil _ _)
        rw [List.length_cons]
        omega

/-! ## The scan -/

/-- A part of a scan that ends in a value, or with `deeper` exactly when `bad` holds. -/
def Ends (v : Volume) (bad : Prop) (m : Check.ScanM Unit) : Prop :=
  ∀ s, v.Like s.vol → (bad ∧ ∃ s', m s = .error .deeper s') ∨
    (¬ bad ∧ ∃ s', m s = .ok () s' ∧ v.Like s'.vol)

namespace Ends

variable {v : Volume} {bad : Prop}

theorem note (f : Check.Ctx → Check.Ctx) : Ends v False (Check.note f) := fun _ hs =>
  Or.inr ⟨id, _, rfl, hs⟩

theorem pure : Ends v False (Pure.pure ()) := fun s hs => Or.inr ⟨id, s, rfl, hs⟩

theorem seq {m k : Check.ScanM Unit} (hm : Ends v False m) (hk : Ends v bad k) :
    Ends v bad (do m; k) := by
  intro s hs
  rcases hm s hs with ⟨hf, -⟩ | ⟨-, s', hrun, hs'⟩
  · exact hf.elim
  · rw [bind_of_ok hrun]
    exact hk s' hs'

/-- A call on the volume, whose answer is known. -/
theorem ask {α : Type} {m : VolumeM α} {k : Except Error α → Check.ScanM Unit}
    (hm : Steady v.Like m) (hv : v.Opened) (hk : Ends v bad (k (v.answer m))) :
    Ends v bad (Check.ask m >>= k) := by
  obtain ⟨r, hr⟩ := hm
  intro s hs
  cases r with
  | error e =>
      obtain ⟨v₀, hv₀, -⟩ := hr.raise hv.like
      obtain ⟨v', hrun, hv'⟩ := hr.raise hs
      have hanswer : v.answer m = .error e := by simp only [Volume.answer, hv₀]
      have hask : Check.ask m s = .ok (.error e) { s with vol := v' } := by
        simp only [Check.ask, hrun]
      rw [hanswer] at hk
      rw [bind_of_ok hask]
      exact hk _ hv'
  | ok a =>
      obtain ⟨b, v₀, hv₀, hb, -⟩ := hr.ok hv.like
      obtain ⟨c, v', hrun, hc, hv'⟩ := hr.ok hs
      rw [hb] at hv₀
      rw [hc] at hrun
      have hanswer : v.answer m = .ok a := by simp only [Volume.answer, hv₀]
      have hask : Check.ask m s = .ok (.ok a) { s with vol := v' } := by
        simp only [Check.ask, hrun]
      rw [hanswer] at hk
      rw [bind_of_ok hask]
      exact hk _ hv'

theorem forM {ι : Type} {f : ι → Check.ScanM Unit} (bad : ι → Prop) (l : List ι)
    (h : ∀ i ∈ l, Ends v (bad i) (f i)) : Ends v (∃ i ∈ l, bad i) (l.forM f) := by
  induction l with
  | nil =>
      intro s hs
      refine Or.inr ⟨?_, s, rfl, hs⟩
      rintro ⟨i, hi, -⟩
      cases hi
  | cons i l ih =>
      intro s hs
      have htail := ih fun j hj => h j (List.mem_cons_of_mem i hj)
      rcases h i List.mem_cons_self s hs with ⟨hbad, s', hrun⟩ | ⟨hgood, s', hrun, hs'⟩
      · exact Or.inl ⟨⟨i, List.mem_cons_self, hbad⟩, s', bind_of_error hrun⟩
      · have hforM : (i :: l).forM f s = l.forM f s' := bind_of_ok hrun
        rw [hforM]
        rcases htail s' hs' with ⟨⟨j, hj, hbad⟩, hrest⟩ | ⟨hgood', hrest⟩
        · exact Or.inl ⟨⟨j, List.mem_cons_of_mem i hj, hbad⟩, hrest⟩
        · refine Or.inr ⟨?_, hrest⟩
          rintro ⟨j, hj, hbad⟩
          rcases List.mem_cons.mp hj with rfl | hj
          · exact hgood hbad
          · exact hgood' ⟨j, hj, hbad⟩

theorem congr {bad' : Prop} {m : Check.ScanM Unit} (h : Ends v bad m) (hiff : bad ↔ bad') :
    Ends v bad' m := by
  have heq : bad = bad' := propext hiff
  rw [← heq]
  exact h

end Ends

/-- A part of an extraction in which no call nests too deep. -/
def Shallow (v : Volume) (m : Extract.ExtractM Unit) : Prop :=
  ∀ s, v.Like s.vol → match m s with
    | .ok _ s' => v.Like s'.vol
    | .error .deeper _ => False
    | .error (.fault _) _ => True

namespace Shallow

variable {v : Volume}

theorem seq {m k : Extract.ExtractM Unit} (hm : Shallow v m) (hk : Shallow v k) :
    Shallow v (do m; k) := by
  intro s hs
  have hm := hm s hs
  rcases hrun : m s with ⟨_, s'⟩ | ⟨_ | f, s'⟩
  · rw [hrun] at hm
    rw [bind_of_ok hrun]
    exact hk s' hm
  · rw [hrun] at hm
    exact hm.elim
  · rw [bind_of_error hrun]
    trivial

theorem ask {α : Type} {m : VolumeM α} {k : α → Extract.ExtractM Unit}
    (hm : Steady v.Like m) (hv : v.Opened) (hk : ∀ a, v.answer m = .ok a → Shallow v (k a)) :
    Shallow v (Extract.ask m >>= k) := by
  obtain ⟨r, hr⟩ := hm
  intro s hs
  cases r with
  | error e =>
      obtain ⟨v', hrun, -⟩ := hr.raise hs
      have hask : Extract.ask m s = .error (.fault (.err e)) { s with vol := v' } := by
        simp only [Extract.ask, hrun]
      rw [bind_of_error hask]
      trivial
  | ok a =>
      obtain ⟨b, v₀, hv₀, hb, -⟩ := hr.ok hv.like
      obtain ⟨c, v', hrun, hc, hv'⟩ := hr.ok hs
      rw [hb] at hv₀
      rw [hc] at hrun
      have hask : Extract.ask m s = .ok a { s with vol := v' } := by
        simp only [Extract.ask, hrun]
      rw [bind_of_ok hask]
      exact hk a (by simp only [Volume.answer, hv₀]) _ hv'

theorem forM {ι : Type} {f : ι → Extract.ExtractM Unit} (l : List ι)
    (h : ∀ i ∈ l, Shallow v (f i)) : Shallow v (l.forM f) := by
  induction l with
  | nil => exact fun _ hs => hs
  | cons i l ih =>
      exact (h i List.mem_cons_self).seq (ih fun j hj => h j (List.mem_cons_of_mem i hj))

theorem createDirAll (p : HostPath) : Shallow v (Extract.createDirAll p) := by
  intro s hs
  unfold Extract.createDirAll
  rcases s.host.createDirAll p with ⟨host, _ | _⟩
  · trivial
  · exact hs

theorem write (p : HostPath) : Shallow v (Extract.write p) := by
  intro s hs
  unfold Extract.write
  rcases s.host.write p with f | host
  · trivial
  · exact hs

end Shallow

/-- A zeroed sector with the given fields written into it. -/
def Sector.ofFields (fields : List (ℕ × Bytes)) : Sector :=
  .ofBytes (fields.foldl (fun d p => splice d p.1 p.2) (List.replicate SECTOR_SIZE 0))

/-- A device of 20 blocks with a hand-laid volume: reserved blocks of one sector, no bitmap, the
anodes `slots` from the root directory's number on, and `entries` in the root directory. -/
def handLaid (slots entries : Bytes) : Device where
  sectors
    | 2 => .ofFields [(0, enc32 ID_PFS_DISK), (RB_OFF_OPTIONS, enc32 MODE_SPLITTED_ANODES),
        (RB_OFF_LASTRESERVED, enc32 9), (RB_OFF_FIRSTRESERVED, enc32 2),
        (RB_OFF_RESERVED_BLKSIZE, enc16 512), (RB_OFF_RBLKCLUSTER, enc16 2),
        (RB_OFF_DISKSIZE, enc32 20), (0x74, enc32 4)]
    | 4 => .ofFields [(0, enc16 IBLKID), (12, enc32 5)]
    | 5 => .ofFields [(0, enc16 ABLKID), (76, slots)]
    | 6 => .ofFields [(0, enc16 DBLKID), (20, entries)]
    | _ => .ofFields []
  total := 20
  writable := false
  faults _ := false
  attempts := 0
  log := []

/-- The hand-laid rootblock. -/
def handLaidRoot : Rootblock where
  disktype := ID_PFS_DISK
  options := MODE_SPLITTED_ANODES
  datestamp := 0
  diskname := []
  lastreserved := 9
  firstreserved := 2
  reservedFree := 0
  reservedBlksize := 512
  rblkcluster := 2
  blocksfree := 0
  alwaysfree := 0
  disksize := 20
  extension := 0
  bitmapindex := List.replicate 5 0
  indexblocks := 4 :: List.replicate 98 0

/-- The volume on the hand-laid device. -/
def handLaidVolume (slots entries : Bytes) : Volume :=
  ⟨handLaid slots entries, .new, handLaidRoot, none, .new handLaidRoot none, .new handLaidRoot⟩

/-- Opening a device whose rootblock cluster has two blocks and no extension. -/
theorem Volume.fromDevice_of_parse {dev : Device} {rb : Rootblock} (htotal : 4 ≤ dev.total)
    (hone : Rootblock.parse (dev.bytesAt 2 1) = .ok rb)
    (htwo : Rootblock.parse (dev.bytesAt 2 2) = .ok rb) (hcluster : rb.rblkcluster = 2)
    (hrbs : 64 ≤ rb.reservedBlksize) (hext : rb.hasExtension = false) :
    Volume.fromDevice dev = .ok ⟨dev, .new, rb, none, .new rb none, .new rb⟩ := by
  have hread : dev.readBlock ROOTBLOCK = .ok (dev.bytesAt 2 1) :=
    Device.readBlocks_ok (by omega : 2 + 1 ≤ dev.total)
  have hbig : dev.readBlocks ROOTBLOCK 2 (2 * 512) = .ok (dev.bytesAt 2 2) :=
    Device.readBlocks_ok (by omega : 2 + 2 ≤ dev.total)
  have hvalid : Volume.validateRbs rb = .ok () := if_neg (Nat.not_lt.mpr hrbs)
  unfold Volume.fromDevice
  rw [hread, ok_bind, hone, ok_bind, hcluster, if_pos (by omega), hbig, ok_bind, htwo, ok_bind]
  dsimp only
  rw [hvalid, ok_bind, hext, if_neg Bool.false_ne_true]
  rfl

theorem fromDevice_handLaid (slots entries : Bytes) :
    Volume.fromDevice (handLaid slots entries) = .ok (handLaidVolume slots entries) := by
  have hone : Rootblock.parse ((handLaid [] []).bytesAt 2 1) = .ok handLaidRoot := by
    decide +kernel
  have htwo : Rootblock.parse ((handLaid [] []).bytesAt 2 2) = .ok handLaidRoot := by
    decide +kernel
  -- the rootblock cluster does not depend on the slots and the entries
  exact @Volume.fromDevice_of_parse (handLaid slots entries) handLaidRoot
    (by decide : 4 ≤ 20) hone htwo rfl (by decide) (by decide)

/-- The slots of a root directory of one block. -/
def rootSlots : Bytes := enc32 1 ++ enc32 6 ++ enc32 0

end Pfs3
