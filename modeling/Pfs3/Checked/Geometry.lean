import Pfs3.Model.Api
import Pfs3.Checked.Total

/-!
# The geometry of a rootblock

Opening a volume checks one field of the rootblock, a lower bound of 64 on the size of a reserved
block.  The writer divides by the number of sectors of a reserved block and takes the length of the
reserved area; the check takes the length of the data area.  This module says for which rootblocks
these computations do not panic.
-/

namespace Pfs3

open ByteList Stop

/-! ## Calls that do not panic -/

/-- From a state with `I` the call returns a value and keeps `I`, or returns an error. -/
def Returns {σ α : Type} (I : σ → Prop) (m : EStateM Fault σ α) : Prop :=
  ∀ s, I s → (∃ a s', m s = .ok a s' ∧ I s') ∨ ∃ e s', m s = .error (.err e) s'

section Returns

variable {σ α β : Type} {I : σ → Prop} {m : EStateM Fault σ α}

theorem returns_pure (a : α) : Returns I (pure a : EStateM Fault σ α) :=
  fun s hs => Or.inl ⟨a, s, rfl, hs⟩

theorem Returns.bind {k : α → EStateM Fault σ β} (h : Returns I m) (hk : ∀ a, Returns I (k a)) :
    Returns I (m >>= k) := by
  intro s hs
  rcases h s hs with ⟨a, s', hrun, hs'⟩ | ⟨e, s', hrun⟩
  · rw [bind_of_ok hrun]
    exact hk a s' hs'
  · exact Or.inr ⟨e, s', bind_of_error hrun⟩

theorem returns_get {k : σ → EStateM Fault σ β} (h : ∀ s, I s → Returns I (k s)) :
    Returns I (get >>= k) := fun s hs => h s hs s hs

theorem returns_set {s : σ} (h : I s) : Returns I (set s : EStateM Fault σ PUnit) :=
  fun _ _ => Or.inl ⟨_, s, rfl, h⟩

theorem returns_lift {r : Except Fault α} (h : r ≠ .error .panic) :
    Returns I (liftM r : EStateM Fault σ α) := by
  intro s hs
  rcases r with (e | _) | a
  · exact Or.inr ⟨e, s, rfl⟩
  · exact absurd rfl h
  · exact Or.inl ⟨a, s, rfl, hs⟩

theorem Steady.returns (h : Steady I m) : Returns I m := by
  obtain ⟨r, hr⟩ := h
  intro s hs
  cases r with
  | error e =>
      obtain ⟨s', hrun, -⟩ := hr.raise hs
      exact Or.inr ⟨e, s', hrun⟩
  | ok b =>
      obtain ⟨a, s', hrun, -, hs'⟩ := hr.ok hs
      exact Or.inl ⟨a, s', hrun, hs'⟩

theorem Returns.ne_panic (h : Returns I m) {s : σ} (hs : I s) (s' : σ) : m s ≠ .error .panic s' := by
  intro hcon
  rcases h s hs with ⟨a, t, hrun, -⟩ | ⟨e, t, hrun⟩
  · rw [hcon] at hrun
    cases hrun
  · rw [hcon] at hrun
    cases hrun

end Returns

theorem Device.readBlocks_returns (dev : Device) (block count bufLen : ℕ) :
    dev.readBlocks block count bufLen ≠ .error .panic := by
  unfold Device.readBlocks
  split
  · exact fun hcon => by cases hcon
  · split
    · exact fun hcon => by cases hcon
    · exact fun hcon => by cases hcon

/-! ## Opening for writing -/

namespace Writer

variable {v : Volume}

/-- The writer stands on the opened volume, up to the volume's cache. -/
def On (v : Volume) (w : Writer) : Prop := v.Like w.vol

theorem returns_onVol {α : Type} {m : VolumeM α} (h : Returns v.Like m) :
    Returns (On v) (onVol m) := by
  intro w hw
  rcases h w.vol hw with ⟨a, v', hrun, hv'⟩ | ⟨e, v', hrun⟩
  · exact Or.inl ⟨a, setVol v' w, by simp only [onVol, zoom, hrun], hv'⟩
  · exact Or.inr ⟨e, setVol v' w, by simp only [onVol, zoom, hrun]⟩

theorem returns_readReservedRaw (blk : ℕ) : Returns (On v) (readReservedRaw blk) := by
  refine returns_get fun w _ => ?_
  split
  · exact returns_pure _
  · exact returns_lift (Device.readBlocks_returns _ _ _ _)

theorem returns_getBitmapBlockNr (hv : v.Opened) (seqnr : ℕ) :
    Returns (On v) (getBitmapBlockNr seqnr) := by
  refine returns_get fun w hw => returns_onVol (Steady.returns ?_)
  obtain ⟨c, hc, -⟩ := hw
  rw [hc]
  exact Volume.steady_onCache (hv.bitmapRbs ▸ BitmapReader.steady_getBitmapBlock hv.bitmap seqnr)

theorem returns_loadDataBitmapLoop (hv : v.Opened) (seqs : List ℕ) :
    Returns (On v) (loadDataBitmapLoop seqs) := by
  induction seqs with
  | nil => exact returns_pure _
  | cons seq rest ih =>
      unfold loadDataBitmapLoop
      refine (returns_getBitmapBlockNr hv seq).bind fun blk => ?_
      cases blk with
      | none => exact ih
      | some blk =>
          refine (returns_readReservedRaw blk).bind fun data => ?_
          refine returns_get fun w hw => ?_
          dsimp only
          exact Returns.bind (returns_set hw) fun _ => ih

theorem returns_load (hv : v.Opened) :
    Returns (On v) (do loadReservedBitmap; loadDataBitmap : WriterM Unit) := by
  refine Returns.bind ?_ fun _ => ?_
  · refine returns_get fun w hw => ?_
    dsimp only
    refine (returns_lift (Device.readBlocks_returns _ _ _ _)).bind fun cluster => ?_
    exact returns_set hw
  · refine returns_get fun w _ => ?_
    exact returns_loadDataBitmapLoop hv _

/-- The rootblock fields with which the writer can compute its geometry. -/
def Divides (rb : Rootblock) : Prop :=
  SECTOR_SIZE ≤ rb.reservedBlksize ∧ rb.firstreserved ≤ rb.lastreserved ∧ rb.lastreserved + 1 < U32

/-- Opening for writing panics exactly where the geometry cannot be computed. -/
theorem open_ne_panic_iff (hv : v.Opened) (clock : ℕ → Datestamp) :
    Writer.open v clock ≠ .error .panic ↔ Divides v.rootblock := by
  have hrescluster : v.rootblock.reservedBlksize / SECTOR_SIZE = 0 ↔
      v.rootblock.reservedBlksize < SECTOR_SIZE := by
    rw [Nat.div_eq_zero_iff]
    exact or_iff_right (by decide)
  unfold Writer.open ofVolume Divides
  dsimp only
  split
  · rename_i hbad
    refine ⟨fun h => absurd rfl h, fun ⟨hsize, hfirst, hlast⟩ => ?_⟩
    rw [hrescluster] at hbad
    omega
  · rename_i hgood
    rw [hrescluster] at hgood
    refine ⟨fun _ => by omega, fun _ => ?_⟩
    rw [ok_bind]
    split
    · exact fun hcon => by cases hcon
    · rename_i f w hrun
      rintro hcon
      cases hcon
      exact (returns_load hv).ne_panic (by exact hv.like) w hrun

end Writer

/-! ## The arithmetic of the check -/

namespace Check

variable {v : Volume}

/-- The arithmetic steps of a check from this state on end without a panic. -/
def Safe (v : Volume) {α : Type} (m : ScanM α) : Prop :=
  ∀ s : Scan, v.Like s.vol → ∀ s', m s ≠ .error (.fault .panic) s'

theorem ask_of_steady {α : Type} {m : VolumeM α} (h : Steady v.Like m) {s : Scan}
    (hs : v.Like s.vol) : ∃ r s', ask m s = .ok r s' := by
  unfold ask
  rcases h.returns s.vol hs with ⟨a, v', hrun, -⟩ | ⟨e, v', hrun⟩
  · exact ⟨.ok a, _, by rw [hrun]⟩
  · exact ⟨.error e, _, by rw [hrun]⟩

theorem safe_checkReserved (rb : Rootblock) (repair : Bool) : Safe v (checkReserved rb repair) := by
  intro s hs s'
  obtain ⟨r, t, hask⟩ := ask_of_steady Volume.steady_reservedCountFree hs
  unfold checkReserved
  rw [bind_of_ok hask]
  cases r with
  | ok free => exact fun hcon => by cases hcon
  | error e => exact fun hcon => by cases hcon

/-- The reserved area ends before the volume does. -/
def FitsDisk (rb : Rootblock) : Prop := rb.lastreserved + 1 < U32 ∧ rb.lastreserved < rb.disksize

theorem safe_checkBitmap_iff (hv : v.Opened) (repair : Bool) :
    Safe v (checkBitmap v.rootblock repair) ↔ FitsDisk v.rootblock := by
  have hrun : ∀ s : Scan, v.Like s.vol → ∃ r t, ask Volume.bitmapCountFree s = .ok r t :=
    fun s hs => ask_of_steady hv.steady_bitmapCountFree hs
  unfold FitsDisk
  by_cases hlast : v.rootblock.lastreserved + 1 < U32
  · have hadd : addU32 v.rootblock.lastreserved 1 = .ok (v.rootblock.lastreserved + 1) := if_pos hlast
    by_cases hdisk : v.rootblock.lastreserved < v.rootblock.disksize
    · have hsub : subU32 v.rootblock.disksize (v.rootblock.lastreserved + 1) =
          .ok (v.rootblock.disksize - (v.rootblock.lastreserved + 1)) := if_pos hdisk
      refine ⟨fun _ => ⟨hlast, hdisk⟩, fun _ s hs s' => ?_⟩
      obtain ⟨r, t, hask⟩ := hrun s hs
      unfold checkBitmap
      rw [bind_of_ok hask, hadd]
      change (checked (subU32 _ _) >>= _) t ≠ _
      rw [hsub]
      exact fun hcon => by cases hcon
    · have hsub : subU32 v.rootblock.disksize (v.rootblock.lastreserved + 1) = .error .panic :=
        if_neg (by omega)
      refine ⟨fun h => ?_, fun h => absurd h.2 hdisk⟩
      obtain ⟨r, t, hask⟩ := hrun ⟨v, {}⟩ hv.like
      refine absurd ?_ (h ⟨v, {}⟩ hv.like t)
      unfold checkBitmap
      rw [bind_of_ok hask, hadd]
      change (checked (subU32 _ _) >>= _) t = _
      rw [hsub]
      rfl
  · have hadd : addU32 v.rootblock.lastreserved 1 = .error .panic := if_neg hlast
    refine ⟨fun h => ?_, fun h => absurd h.1 hlast⟩
    obtain ⟨r, t, hask⟩ := hrun ⟨v, {}⟩ hv.like
    refine absurd ?_ (h ⟨v, {}⟩ hv.like t)
    unfold checkBitmap
    rw [bind_of_ok hask, hadd]
    rfl

end Check

/-! ## Volumes that open for reading -/

/-- On a volume that opens for reading, opening for writing and the arithmetic of the check end
without a panic if and only if a reserved block has a sector or more, the reserved area is not
empty, and it ends before the disk does. -/
theorem open_and_check_return_iff {dev : Device} {v : Volume}
    (hopen : Volume.fromDevice dev = .ok v) (clock : ℕ → Datestamp) (repair : Bool) :
    (Writer.open v clock ≠ .error .panic ∧ Check.Safe v (Check.checkBitmap v.rootblock repair) ∧
        Check.Safe v (Check.checkReserved v.rootblock repair)) ↔
      SECTOR_SIZE ≤ v.rootblock.reservedBlksize ∧
        v.rootblock.firstreserved ≤ v.rootblock.lastreserved ∧
        v.rootblock.lastreserved < v.rootblock.disksize := by
  have hv := Volume.opened_of_fromDevice hopen
  have hdisk := (Checked.sound_of_fromDevice hopen).root.disksize
  rw [Writer.open_ne_panic_iff hv, Check.safe_checkBitmap_iff hv]
  unfold Writer.Divides Check.FitsDisk
  constructor
  · rintro ⟨⟨hsize, hfirst, -⟩, ⟨-, hlast⟩, -⟩
    exact ⟨hsize, hfirst, hlast⟩
  · rintro ⟨hsize, hfirst, hlast⟩
    exact ⟨⟨hsize, hfirst, by omega⟩, ⟨by omega, hlast⟩, Check.safe_checkReserved _ _⟩

/-- The hand-laid volume passes. -/
theorem open_and_check_return_handLaid :
    Writer.open (handLaidVolume rootSlots []) (fun _ => ⟨0, 0, 0⟩) ≠ .error .panic :=
  ((open_and_check_return_iff (fromDevice_handLaid rootSlots []) _ false).mpr (by decide)).1

/-- A device whose rootblock has reserved blocks of 64 bytes and a reserved area that ends behind
the disk. -/
def crampedDevice : Device where
  sectors
    | 2 => .ofFields [(0, enc32 ID_PFS_DISK), (RB_OFF_LASTRESERVED, enc32 9),
        (RB_OFF_FIRSTRESERVED, enc32 2), (RB_OFF_RESERVED_BLKSIZE, enc16 64),
        (RB_OFF_RBLKCLUSTER, enc16 1), (RB_OFF_DISKSIZE, enc32 5)]
    | _ => .ofFields []
  total := 20
  writable := true
  faults _ := false
  attempts := 0
  log := []

def crampedRoot : Rootblock where
  disktype := ID_PFS_DISK
  options := 0
  datestamp := 0
  diskname := []
  lastreserved := 9
  firstreserved := 2
  reservedFree := 0
  reservedBlksize := 64
  rblkcluster := 1
  blocksfree := 0
  alwaysfree := 0
  disksize := 5
  extension := 0
  bitmapindex := List.replicate 5 0
  indexblocks := List.replicate 99 0

def crampedVolume : Volume :=
  ⟨crampedDevice, .new, crampedRoot, none, .new crampedRoot none, .new crampedRoot⟩

theorem fromDevice_cramped : Volume.fromDevice crampedDevice = .ok crampedVolume := by
  have hread : crampedDevice.readBlock ROOTBLOCK = .ok (crampedDevice.bytesAt 2 1) :=
    Device.readBlocks_ok (by decide : 2 + 1 ≤ 20)
  have hparse : Rootblock.parse (crampedDevice.bytesAt 2 1) = .ok crampedRoot := by decide +kernel
  have hcluster : crampedRoot.rblkcluster = 1 := rfl
  unfold Volume.fromDevice
  rw [hread, ok_bind, hparse, ok_bind, hcluster, if_neg (by omega)]
  rfl

/-- It opens for reading; opening it for writing divides by zero, and its data area is shorter
than nothing. -/
theorem open_and_check_panic : Volume.fromDevice crampedDevice = .ok crampedVolume ∧
    Writer.open crampedVolume (fun _ => ⟨0, 0, 0⟩) = .error .panic ∧
    ¬ Check.Safe crampedVolume (Check.checkBitmap crampedRoot false) := by
  have hv := Volume.opened_of_fromDevice fromDevice_cramped
  refine ⟨fromDevice_cramped, ?_, fun hsafe => ?_⟩
  · exact Classical.not_not.mp fun hne =>
      absurd ((Writer.open_ne_panic_iff hv _).mp hne).1 (by decide)
  · exact absurd ((Check.safe_checkBitmap_iff hv false).mp hsafe).2 (by decide)

end Pfs3
