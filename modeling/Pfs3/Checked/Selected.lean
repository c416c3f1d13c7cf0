import Pfs3.Checked.Partitions
import Pfs3.Store.VolumeName
import Pfs3.Store.Confined

/-!
# Writing to a selected partition

`mkfs` and the volume calls take the place of a partition from the partition table and nothing
else: the device that they write to ends with the file, not with the partition.  So they stay
inside of the partition when it is the last thing in the file.
-/

namespace Pfs3

open ByteList Stop

namespace Rdb

/-! ## The file as a device -/

/-- The device that `FileBlockDevice::open_rw` makes of a file: its sectors from byte `offset` on. -/
def deviceOf (file : Bytes) (offset total : ℕ) (faults : ℕ → Bool) : Device where
  sectors b := .ofBytes (file.drop (offset + b * SECTOR_SIZE))
  total := total
  writable := true
  faults := faults
  attempts := 0
  log := []

/-- The file with the sectors of the device from byte `offset` on. -/
def fileOf (file : Bytes) (offset : ℕ) (d : Device) : Bytes :=
  (List.range file.length).map fun i =>
    if i < offset then file.getD i 0
    else (d.sectors ((i - offset) / SECTOR_SIZE)).val.getD ((i - offset) % SECTOR_SIZE) 0

variable {file : Bytes} {offset total : ℕ} {faults : ℕ → Bool}

theorem length_fileOf (d : Device) : (fileOf file offset d).length = file.length := by
  rw [fileOf, List.length_map, List.length_range]

theorem getD_fileOf (d : Device) {i : ℕ} (hi : i < file.length) :
    (fileOf file offset d).getD i 0 =
      if i < offset then file.getD i 0
      else (d.sectors ((i - offset) / SECTOR_SIZE)).val.getD ((i - offset) % SECTOR_SIZE) 0 := by
  rw [fileOf, List.getD_eq_getElem?_getD, List.getElem?_map, List.getElem?_range hi]
  rfl

theorem getD_deviceOf {i : ℕ} (hi : i < file.length) (hoffset : offset ≤ i) :
    ((deviceOf file offset total faults).sectors ((i - offset) / SECTOR_SIZE)).val.getD
      ((i - offset) % SECTOR_SIZE) 0 = file.getD i 0 := by
  have hs : SECTOR_SIZE = 512 := rfl
  have hpos : offset + (i - offset) / SECTOR_SIZE * SECTOR_SIZE + (i - offset) % SECTOR_SIZE = i := by
    rw [hs]
    omega
  have hlt := Nat.mod_lt (i - offset) (show 0 < SECTOR_SIZE by decide)
  show ((file.drop _ ++ List.replicate SECTOR_SIZE 0).take SECTOR_SIZE).getD _ 0 = _
  rw [List.getD_eq_getElem?_getD, List.getElem?_take_of_lt hlt,
    List.getElem?_append_left (by rw [List.length_drop]; omega), List.getElem?_drop, hpos,
    List.getD_eq_getElem?_getD]

/-- A byte in front of the device or behind its end stays as it is. -/
theorem getD_fileOf_within {d : Device} (h : (deviceOf file offset total faults).Within d) {i : ℕ}
    (hi : i < offset ∨ offset + SECTOR_SIZE * total ≤ i) :
    (fileOf file offset d).getD i 0 = file.getD i 0 := by
  by_cases hlen : i < file.length
  · rw [getD_fileOf d hlen]
    split
    · rfl
    · rename_i hge
      have hs : SECTOR_SIZE = 512 := rfl
      have hbehind : total ≤ (i - offset) / SECTOR_SIZE := by
        rw [hs] at hi ⊢
        omega
      rw [h.behind _ hbehind]
      exact getD_deviceOf hlen (not_lt.1 hge)
  · have hout : (fileOf file offset d).length ≤ i := by
      rw [length_fileOf]
      exact not_lt.1 hlen
    rw [List.getD_eq_getElem?_getD, List.getElem?_eq_none hout, List.getD_eq_getElem?_getD,
      List.getElem?_eq_none (not_lt.1 hlen)]

/-! ## Selecting a partition -/

/-- `str::parse::<usize>`. -/
def parseUsize (s : Name) : Option ℕ :=
  let digits := match s with
    | '+' :: rest => rest
    | _ => s
  if digits ≠ [] ∧ digits.all Char.isDigit then
    let n := digits.foldl (fun n c => n * 10 + (c.toNat - 48)) 0
    if n < U64 then some n else none
  else none

/-- `str::eq_ignore_ascii_case`. -/
def eqIgnoreAsciiCase (a b : Name) : Bool := a.map Char.toLower == b.map Char.toLower

/-- The byte offset of the partition with the given name or number. -/
def findPartitionOffset (file : Bytes) (name : Name) : Except Fault ℕ := do
  let parts ← detectPfs3Partitions file
  let byNumber := (parseUsize name).bind fun i => parts[i]?
  match (parts.find? fun p => eqIgnoreAsciiCase p.name name).or byNumber with
  | some part => pure part.offset
  | none =>
      let names := ", ".intercalate (parts.map fun p => String.ofList p.name)
      let wanted := String.ofList name
      throw (.err (.notFound s!"partition '{wanted}' not found (available: {names})"))

/-- Detect first PFS3 partition offset in an RDB disk image. -/
def detectPfs3Partition (file : Bytes) : Except Fault ℕ := do
  match ← detectPfs3Partitions file with
  | part :: _ => pure part.offset
  | [] => throw (.err (.invalidPartition "no PFS3 partition found in RDB image"))

/-- The offset that `open_auto` and `mkfs` take for their two options: that of the named partition,
that of the first one for an offset of 0, and the offset itself otherwise. -/
def selectOffset (file : Bytes) (offset : ℕ) : Option Name → Except Fault ℕ
  | some name => findPartitionOffset file name
  | none =>
      if offset = 0 then
        match detectPfs3Partition file with
        | .error (.err _) => .ok 0
        | found => found
      else .ok offset

/-! ## The commands -/

/-- `FileBlockDevice::open_rw` without a size of the device, as both commands call it. -/
def openRw (file : Bytes) (offset : ℕ) (faults : ℕ → Bool) : Except Fault Device := do
  let total ← deviceBlocks file.length SECTOR_SIZE offset 0
  pure (deviceOf file offset total faults)

/-- Open a volume with automatic partition/RDB detection, for writing. -/
def openAuto (file : Bytes) (offset : ℕ) (part : Option Name) (faults : ℕ → Bool) :
    Except Fault Volume := do
  let offset ← selectOffset file offset part
  let dev ← openRw file offset faults
  Volume.fromDevice dev

/-- The file after a computation on the device that starts at byte `offset`. -/
def onFile {α : Type} (offset : ℕ) (dev : Device) (m : EStateM Fault Device α) :
    EStateM Fault Bytes α :=
  zoom (fun _ => dev) (fun d file => fileOf file offset d) m

/-- The device of `mkfs`, and where in the file it starts: a new file with `--size-mb`, else all of
an existing one from the selected offset on. -/
def chooseDevice (offset : ℕ) (part : Option Name) (faults : ℕ → Bool) :
    Option ℕ → EStateM Fault Bytes (ℕ × Device)
  | some mb => do
      let total := mb * 1024 * 1024 / SECTOR_SIZE
      let file := List.replicate (total * SECTOR_SIZE) (0 : UInt8)
      set file
      pure (0, deviceOf file 0 total faults)
  | none => do
      let file ← get
      let offset ← selectOffset file offset part
      let dev ← openRw file offset faults
      pure (offset, dev)

/-- `mkfs` on the chosen device.  The text of `bail!` is a value here. -/
def formatDevice (offset : ℕ) (dev : Device) (name : Name) (now : Datestamp) :
    EStateM Fault Bytes (Except String FormatResult) :=
  if dev.total < 64 then pure (.error "Image too small (need at least 64 blocks)")
  else do
    let result ← onFile offset dev (Format.formatWithSize dev.total ⟨name, false⟩ now)
    pure (.ok result)

/-- `mkfs` on an image file that exists or is made. -/
def mkfs (name : Name) (sizeMb : Option ℕ) (offset : ℕ) (part : Option Name) (faults : ℕ → Bool)
    (now : Datestamp) : EStateM Fault Bytes (Except String FormatResult) := do
  let (offset, dev) ← chooseDevice offset part faults sizeMb
  formatDevice offset dev name now

/-- What happens to an image file with the partition `p` selected: it is formatted, or opened for
writing and changed by some operations, each made however the one before it ended. -/
inductive Change (p : PartitionInfo) : Bytes → Bytes → Prop
  | mkfs {file : Bytes} (name : Name) (offset : ℕ) (part : Option Name) (faults : ℕ → Bool)
      (now : Datestamp) (h : selectOffset file offset part = .ok p.offset) :
      Change p file (leaves (Rdb.mkfs name none offset part faults now file))
  | write {file : Bytes} (offset : ℕ) (part : Option Name) (faults : ℕ → Bool)
      (clock : ℕ → Datestamp) {vol : Volume} {w : Writer} (ops : List Writer.Op)
      (h : selectOffset file offset part = .ok p.offset)
      (hvol : openAuto file offset part faults = .ok vol) (hopen : Writer.open vol clock = .ok w) :
      Change p file (fileOf file p.offset (Writer.after ops w).vol.dev)

/-! ## What a command changes -/

theorem fromDevice_dev {dev : Device} {v : Volume} (h : Volume.fromDevice dev = .ok v) :
    v.dev = dev := by
  have hopens := Volume.opens_of_fromDevice h
  rw [Volume.fromDevice_eq_mount hopens.parse hopens.first hopens.cluster] at h
  obtain ⟨⟨⟩, -, h⟩ := of_bind_ok h
  split at h
  · split at h
    · cases h
    · obtain ⟨ext, -, h⟩ := of_bind_ok h
      exact (congrArg Volume.dev (Except.ok.inj h)).symm
  · exact (congrArg Volume.dev (Except.ok.inj h)).symm

/-- The bytes of the file outside of the sectors that a device of `total` sectors from byte `offset`
on has are the same. -/
structure SameOutside (offset total : ℕ) (file file' : Bytes) : Prop where
  length : file'.length = file.length
  same : ∀ i, i < offset ∨ offset + SECTOR_SIZE * total ≤ i → file'.getD i 0 = file.getD i 0

theorem SameOutside.refl (offset total : ℕ) (file : Bytes) : SameOutside offset total file file :=
  ⟨rfl, fun _ _ => rfl⟩

theorem SameOutside.trans {file₁ file₂ file₃ : Bytes} (h : SameOutside offset total file₁ file₂)
    (h' : SameOutside offset total file₂ file₃) : SameOutside offset total file₁ file₃ :=
  ⟨h'.length.trans h.length, fun i hi => (h'.same i hi).trans (h.same i hi)⟩

theorem SameOutside.of_within {d : Device} (h : (deviceOf file offset total faults).Within d) :
    SameOutside offset total file (fileOf file offset d) :=
  ⟨length_fileOf d, fun _ hi => getD_fileOf_within h hi⟩

/-- The whole sectors of the file from byte `offset` on. -/
def sectorsFrom (file : Bytes) (offset : ℕ) : ℕ := (file.length - offset) / SECTOR_SIZE

theorem openRw_eq (file : Bytes) (offset : ℕ) (faults : ℕ → Bool) :
    openRw file offset faults =
      if file.length < offset then .error .panic
      else .ok (deviceOf file offset (sectorsFrom file offset) faults) := by
  unfold openRw deviceBlocks subU32
  rw [if_pos rfl]
  by_cases hlen : file.length < offset
  · rw [if_pos hlen, if_neg (not_le.2 hlen)]
    rfl
  · rw [if_neg hlen, if_pos (not_lt.1 hlen), ok_bind, divide_ok (by decide)]
    rfl

theorem openRw_ok {dev : Device} (h : openRw file offset faults = .ok dev) :
    dev = deviceOf file offset (sectorsFrom file offset) faults := by
  rw [openRw_eq] at h
  split at h
  · cases h
  · exact (Except.ok.inj h).symm

theorem leaves_onFile {α : Type} (offset : ℕ) (dev : Device) (m : EStateM Fault Device α)
    (file : Bytes) : leaves (onFile offset dev m file) = fileOf file offset (leaves (m dev)) := by
  unfold onFile zoom
  cases m dev <;> rfl

theorem leaves_bind_pure {σ α β : Type} (m : EStateM Fault σ α) (f : α → β) (s : σ) :
    leaves ((m >>= fun a => pure (f a)) s) = leaves (m s) := by
  rcases hrun : m s with ⟨a, s'⟩ | ⟨e, s'⟩
  · rw [bind_of_ok hrun]
    rfl
  · rw [bind_of_error hrun]
    rfl

theorem chooseDevice_eq {part : Option Name} {asked : ℕ}
    (h : selectOffset file asked part = .ok offset) :
    chooseDevice asked part faults none file =
      if file.length < offset then .error .panic file
      else .ok (offset, deviceOf file offset (sectorsFrom file offset) faults) file := by
  have hget : (get : EStateM Fault Bytes Bytes) file = .ok file file := rfl
  have hsel : (liftM (selectOffset file asked part) : EStateM Fault Bytes ℕ) file =
      .ok offset file := by
    rw [h]
    rfl
  unfold chooseDevice
  dsimp only
  rw [bind_of_ok hget, bind_of_ok hsel, openRw_eq]
  split <;> rfl

theorem leaves_formatDevice (offset : ℕ) (dev : Device) (name : Name) (now : Datestamp)
    (file : Bytes) : leaves (formatDevice offset dev name now file) =
      if dev.total < 64 then file
      else fileOf file offset (leaves (Format.formatWithSize dev.total ⟨name, false⟩ now dev)) := by
  unfold formatDevice
  split
  · rfl
  · rw [← leaves_onFile]
    exact leaves_bind_pure _ _ _

/-- `mkfs` formats all of the file from the selected offset on, if that is 64 sectors or more. -/
theorem leaves_mkfs {part : Option Name} {name : Name} {now : Datestamp} {asked : ℕ}
    (h : selectOffset file asked part = .ok offset) (hlen : offset ≤ file.length) :
    leaves (mkfs name none asked part faults now file) =
      if sectorsFrom file offset < 64 then file
      else fileOf file offset (leaves (Format.formatWithSize (sectorsFrom file offset) ⟨name, false⟩
        now (deviceOf file offset (sectorsFrom file offset) faults))) := by
  have hchoose := @chooseDevice_eq file offset faults part asked h
  rw [if_neg (not_lt.2 hlen)] at hchoose
  unfold mkfs
  rw [bind_of_ok hchoose]
  exact leaves_formatDevice _ _ _ _ _

/-- The formatter writes to the sectors from the selected offset on. -/
theorem sameOutside_mkfs {part : Option Name} {name : Name} {now : Datestamp} {asked : ℕ}
    (h : selectOffset file asked part = .ok offset) :
    SameOutside offset (sectorsFrom file offset) file
      (leaves (mkfs name none asked part faults now file)) := by
  by_cases hlen : offset ≤ file.length
  · rw [leaves_mkfs h hlen]
    split
    · exact .refl offset _ file
    · exact .of_within (frame_iff_leaves.1 (Format.frame_formatWithSize _ _ _) _)
  · have hchoose := @chooseDevice_eq file offset faults part asked h
    rw [if_pos (not_le.1 hlen)] at hchoose
    unfold mkfs
    rw [bind_of_error hchoose]
    exact .refl offset _ file

/-- One change. -/
theorem Change.sameOutside {p : PartitionInfo} {file file' : Bytes} (h : Change p file file') :
    SameOutside p.offset (sectorsFrom file p.offset) file file' := by
  cases h with
  | mkfs name offset part faults now h => exact sameOutside_mkfs h
  | write offset part faults clock ops h hvol hopen =>
      unfold openAuto at hvol
      rw [h, ok_bind] at hvol
      obtain ⟨dev, hdev, hvol⟩ := of_bind_ok hvol
      obtain rfl := openRw_ok hdev
      have hwithin := (Writer.within_of_open hopen).trans _ _ _ (Writer.within_after ops _)
      rw [fromDevice_dev hvol] at hwithin
      exact .of_within hwithin

/-- Any number of changes keeps the bytes outside of the sectors from the partition's offset on. -/
theorem sameOutside_run {p : PartitionInfo} {file file' : Bytes}
    (h : Relation.ReflTransGen (Change p) file file') :
    SameOutside p.offset (sectorsFrom file p.offset) file file' := by
  induction h with
  | refl => exact .refl _ _ file
  | tail _ hstep ih =>
      have hnext := hstep.sameOutside
      rw [sectorsFrom, ih.length] at hnext
      exact ih.trans hnext

/-- The file has its length, and its bytes outside of the partition. -/
def StaysInside (p : PartitionInfo) (file file' : Bytes) : Prop :=
  file'.length = file.length ∧
    ∀ i, ¬ (p.offset ≤ i ∧ i < p.offset + 512 * p.blocks) → file'.getD i 0 = file.getD i 0

/-- Formatting a partition and writing to it, in any order and number, change no byte outside of
the partition if no whole sector of the file lies behind it. -/
theorem changes_stay_inside {p : PartitionInfo} {file file' : Bytes}
    (hlast : (file.length - p.offset) / 512 ≤ p.blocks)
    (h : Relation.ReflTransGen (Change p) file file') : StaysInside p file file' := by
  have hrun := sameOutside_run h
  refine ⟨hrun.length, fun i hi => hrun.same i ?_⟩
  have hs : SECTOR_SIZE = 512 := rfl
  rw [sectorsFrom, hs]
  omega

/-- An image with one partition from block 2 on, and `n` blocks behind the partition table. -/
def imageWith (blocks n : ℕ) : Bytes :=
  imageOf 1 1 2 (blocks + 1) ++ List.replicate (n * SECTOR_SIZE) 0

example : detectPfs3Partitions (imageWith 1 67) =
    .ok [{ name := [], offset := 1024, blocks := 1 }] := by
  decide +kernel

theorem length_imageWith (blocks n : ℕ) : (imageWith blocks n).length = 1024 + n * 512 := by
  have hput : ∀ {d : Bytes} {off : ℕ} (n : ℕ), d.length = 512 → off + 4 ≤ 512 →
      (splice d off (enc32 n)).length = 512 := by
    intro d off n hd hoff
    rw [length_splice (by rw [hd, length_enc32]; exact hoff), hd]
  have hzero : (List.replicate 512 (0 : UInt8)).length = 512 := List.length_replicate
  have hheader : (imageOf 1 1 2 (blocks + 1)).length = 1024 := by
    refine List.length_append.trans (congrArg₂ (· + ·) (?_ : _ = 512) (?_ : _ = 512))
    · exact hput _ (hput _ hzero (by decide)) (by decide)
    · exact hput _ (hput _ (hput _ (hput _ (hput _ (hput _ hzero (by decide)) (by decide))
        (by decide)) (by decide)) (by decide)) (by decide)
  rw [imageWith, List.length_append, hheader, List.length_replicate]
  rfl

/-- A partition of 67 blocks that ends with the file. -/
theorem changes_stay_inside_last : StaysInside { name := [], offset := 1024, blocks := 67 }
    (imageWith 67 67) (leaves (mkfs ['v'] none 0 none (fun _ => false) ⟨0, 0, 0⟩ (imageWith 67 67))) :=
  changes_stay_inside (by rw [length_imageWith]; decide)
    (.single (.mkfs _ _ _ _ _ (by decide +kernel)))

/-- `mkfs` on a partition of one block writes the rootblock behind it. -/
theorem mkfs_leaves_partition : ¬ ∀ file ps p file', detectPfs3Partitions file = .ok ps → p ∈ ps →
    p.offset + 512 * p.blocks ≤ file.length → Relation.ReflTransGen (Change p) file file' →
      StaysInside p file file' := by
  intro hall
  have hdetect : detectPfs3Partitions (imageWith 1 67) =
      .ok [{ name := [], offset := 1024, blocks := 1 }] := by decide +kernel
  have hsel : selectOffset (imageWith 1 67) 0 none = .ok 1024 := by decide +kernel
  have hsectors : sectorsFrom (imageWith 1 67) 1024 = 67 := by
    rw [sectorsFrom, length_imageWith]
    rfl
  have hstays := hall _ _ { name := [], offset := 1024, blocks := 1 } _ hdetect
    List.mem_cons_self (by rw [length_imageWith]; decide)
    (.single (.mkfs ['v'] 0 none (fun _ => false) ⟨0, 0, 0⟩ hsel))
  have hbyte := hstays.2 2048 (by decide)
  rw [leaves_mkfs hsel (by rw [length_imageWith]; decide), hsectors, if_neg (by decide),
    getD_fileOf _ (by rw [length_imageWith]; decide)] at hbyte
  revert hbyte
  decide +kernel

end Rdb

end Pfs3
