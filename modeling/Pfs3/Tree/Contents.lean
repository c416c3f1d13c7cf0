import Pfs3.Tree.Entries
import Pfs3.Walk.Depth

/-!
# The contents of files

A file's bytes are the first ones of its blocks, as many as its entry says.  A call that writes
data changes the bytes of one object.
-/

namespace Pfs3

open ByteList Stop

namespace Store

variable {S S' : Store} {T T' : Owners} {g : Geometry} {data : ℕ → Sector}

/-! ## Sectors -/

/-- What the blocks hold, one after the other. -/
def sectorBytes (f : ℕ → Sector) (blks : List ℕ) : Bytes := blks.flatMap fun b => (f b).val

theorem sectorBytes_congr {f f' : ℕ → Sector} {blks : List ℕ} (h : ∀ b ∈ blks, f b = f' b) :
    sectorBytes f blks = sectorBytes f' blks := by
  induction blks with
  | nil => rfl
  | cons b blks ih =>
      unfold sectorBytes at ih ⊢
      rw [List.flatMap_cons, List.flatMap_cons, h b List.mem_cons_self,
        ih fun c hc => h c (List.mem_cons_of_mem b hc)]

theorem putSectors_of_not_mem {b : ℕ} (blks : List ℕ) : ∀ (f : ℕ → Sector) (bytes : Bytes),
    b ∉ blks → putSectors f blks bytes b = f b := by
  induction blks with
  | nil => exact fun _ _ _ => rfl
  | cons c blks ih =>
      intro f bytes hb
      rw [List.mem_cons, not_or] at hb
      rw [putSectors, ih _ _ hb.2, Function.update_of_ne hb.1]

/-- What is written is read back. -/
theorem take_sectorBytes_putSectors (blks : List ℕ) : ∀ (f : ℕ → Sector) (bytes : Bytes),
    blks.Nodup → bytes.length ≤ blks.length * SECTOR_SIZE →
    (sectorBytes (putSectors f blks bytes) blks).take bytes.length = bytes := by
  induction blks with
  | nil =>
      intro f bytes _ hlen
      rw [List.length_nil, Nat.zero_mul, Nat.le_zero, List.length_eq_zero_iff] at hlen
      rw [hlen]
      rfl
  | cons b blks ih =>
      intro f bytes hnodup hlen
      rw [List.nodup_cons] at hnodup
      rw [List.length_cons, Nat.succ_mul] at hlen
      have hs : SECTOR_SIZE = 512 := rfl
      have hrest := ih (Function.update f b (Sector.ofBytes bytes)) (bytes.drop SECTOR_SIZE)
        hnodup.2 (by rw [List.length_drop]; omega)
      have hfirst : putSectors f (b :: blks) bytes b = Sector.ofBytes bytes := by
        rw [putSectors, putSectors_of_not_mem _ _ _ hnodup.1, Function.update_self]
      have hcons : sectorBytes (putSectors f (b :: blks) bytes) (b :: blks) =
          (Sector.ofBytes bytes).val ++ sectorBytes (putSectors f (b :: blks) bytes) blks := by
        rw [← hfirst]
        rfl
      have hlen512 : (Sector.ofBytes bytes).val.length = 512 := (Sector.ofBytes bytes).property
      rw [hcons, List.take_append, hlen512]
      have htail : (sectorBytes (putSectors f (b :: blks) bytes) blks).take (bytes.length - 512) =
          bytes.drop 512 := by
        rw [List.length_drop] at hrest
        exact hrest
      rw [htail]
      by_cases hle : bytes.length ≤ 512
      · rw [List.drop_eq_nil_of_le hle, List.append_nil]
        show ((bytes ++ List.replicate SECTOR_SIZE 0).take SECTOR_SIZE).take bytes.length = bytes
        rw [List.take_take, hs, Nat.min_eq_left hle, List.take_left]
      · have hsector : (Sector.ofBytes bytes).val = bytes.take 512 := Sector.ofBytes_take (by omega)
        rw [hsector, List.take_take, Nat.min_eq_right (by omega), List.take_append_drop]

/-- Blocks of the data area can be read. -/
theorem readData_eq {blks : List ℕ} (h : ∀ b ∈ blks, g.dataStart ≤ b ∧ b < g.disksize) :
    ∀ size, readData g data blks size = .ok ((sectorBytes data blks).take size) := by
  induction blks with
  | nil => exact fun size => congrArg Except.ok (List.take_nil).symm
  | cons b blks ih =>
      intro size
      have hb := h b List.mem_cons_self
      have hlen : (data b).val.length = 512 := (data b).property
      have hs : SECTOR_SIZE = 512 := rfl
      have hcons : sectorBytes data (b :: blks) = (data b).val ++ sectorBytes data blks := rfl
      unfold readData
      by_cases hzero : size = 0
      · rw [if_pos hzero, hzero, List.take_zero]
        rfl
      · rw [if_neg hzero, if_neg (by omega)]
        dsimp only
        rw [ih (fun c hc => h c (List.mem_cons_of_mem b hc)), hcons, List.take_append, hlen]
        show Except.ok ((data b).val.take (min size 512) ++
          (sectorBytes data blks).take (size - min size 512)) = _
        by_cases hle : size ≤ 512
        · rw [Nat.min_eq_left hle, Nat.sub_self, Nat.sub_eq_zero_of_le hle]
        · have hall : ∀ k, 512 ≤ k → (data b).val.take k = (data b).val := fun k hk =>
            List.take_of_length_le (by omega)
          rw [Nat.min_eq_right (by omega), hall 512 le_rfl, hall size (by omega)]

/-! ## Files -/

/-- The bytes of the file of the entry `e`. -/
def contentsOf (S : Store) (T : Owners) (e : Entry) : Bytes :=
  match T e.anode.toNat with
  | some n => (sectorBytes S.data n.blocks).take e.fileSize
  | none => []

theorem contentsOf_some {e : Entry} {n : Node} (hn : T e.anode.toNat = some n) :
    contentsOf S T e = (sectorBytes S.data n.blocks).take e.fileSize := by
  unfold contentsOf
  rw [hn]

/-- A file whose chain and blocks did not change. -/
theorem contentsOf_congr {e : Entry} (hT : T' e.anode.toNat = T e.anode.toNat)
    (hdata : ∀ n, T e.anode.toNat = some n → ∀ b ∈ n.blocks, S'.data b = S.data b) :
    contentsOf S' T' e = contentsOf S T e := by
  unfold contentsOf
  rw [hT]
  cases hn : T e.anode.toNat with
  | none => rfl
  | some n => exact congrArg (List.take _) (sectorBytes_congr (hdata n hn))

/-- Another object's blocks are not the ones written. -/
theorem Owned.data_other {held : List ℕ} (h : S'.Owned T' held) {f : ℕ} {m : Node} {bytes : Bytes}
    (hf : T' f = some m) (hdata : S'.data = putSectors S.data m.blocks bytes) {q : ℕ} {n : Node}
    (hq : T' q = some n) (hne : q ≠ f) : ∀ b ∈ n.blocks, S'.data b = S.data b := by
  intro b hb
  rw [hdata]
  exact putSectors_of_not_mem _ _ _ fun hbm => hne (h.block_inj hq hf hb hbm)

/-- An object that is written whole holds what is written. -/
theorem Owned.data_self {held : List ℕ} (h : S'.Owned T' held) {f : ℕ} {m : Node} {bytes : Bytes}
    (hf : T' f = some m) (hdata : S'.data = putSectors S.data m.blocks bytes)
    (hlen : m.blocks.length = Writer.blocksFor bytes.length % U32)
    (hfit : Writer.blocksFor bytes.length < U32) :
    (sectorBytes S'.data m.blocks).take bytes.length = bytes := by
  rw [hdata]
  refine take_sectorBytes_putSectors _ _ _ (h.block_nodup hf) ?_
  rw [hlen, Nat.mod_eq_of_lt hfit]
  exact Writer.le_blocksFor _

/-- The chain of a file leads to its blocks. -/
theorem Settled.readFileData (h : S.Settled T) {q : ℕ} {n : Node} {data : ℕ → Sector}
    (hq : T q = some n) (hfile : n.isDir = false) (size : ℕ) :
    S.disk.readFileData S.geo data q size = .ok ((sectorBytes data n.blocks).take size) := by
  unfold Meta.readFileData
  rw [h.getChain hq, ok_bind]
  exact readData_eq (fun b hb => h.owned.dataBlock hq hfile hb) size

/-- The bytes that a reader of the device gets. -/
theorem Settled.read_eq {v : Volume} (h : S.Settled T) (hv : VolRep v S.geo S.disk data) {q : ℕ}
    {n : Node} (hq : T q = some n) (hfile : n.isDir = false) (size : ℕ) :
    v.answer (Volume.readFileData q size) = .ok ((sectorBytes data n.blocks).take size) := by
  have hread := hv.readFileData q size
  rw [h.readFileData hq hfile size] at hread
  obtain ⟨_, hanswer, rfl⟩ := answer_of_reads hread hv.refl
  exact hanswer

/-! ## Writing -/

/-- After an overwrite the entry's file holds the data, when the entry can hold the size. -/
theorem Rewritten.contents {p : ℕ} {e : Entry} {m : Node} {now : Datestamp} {bytes : Bytes}
    (hw : Rewritten S S' T p e m now bytes) (hfit : Writer.blocksFor bytes.length < U32)
    (hsize : (e.setSize bytes.length now).fileSize = bytes.length) :
    contentsOf S' (Function.update T e.anode.toNat (some m)) (e.setSize bytes.length now) = bytes := by
  have hself : Function.update T e.anode.toNat (some m) e.anode.toNat = some m :=
    Function.update_self ..
  have hanode : (e.setSize bytes.length now).anode = e.anode := rfl
  rw [contentsOf_some (n := m) (hanode ▸ hself), hsize]
  exact hw.settled.owned.data_self hself hw.data hw.length hfit

/-- No other file changes. -/
theorem Rewritten.contents_other {p : ℕ} {e x : Entry} {m : Node} {now : Datestamp} {bytes : Bytes}
    (hw : Rewritten S S' T p e m now bytes) (hx : x.anode ≠ e.anode) :
    contentsOf S' (Function.update T e.anode.toNat (some m)) x = contentsOf S T x := by
  have hne : x.anode.toNat ≠ e.anode.toNat := fun heq => hx (UInt32.toNat_inj.mp heq)
  refine contentsOf_congr (Function.update_of_ne hne _ _) fun n hn => ?_
  exact hw.settled.owned.data_other (Function.update_self ..) hw.data
    ((Function.update_of_ne hne _ _).trans hn) hne

end Store

end Pfs3
