import Pfs3.Store.Update

/-!
# Simulation: bitmaps and reserved blocks

The functions of `Writer` that read the volume, and those that change the bitmaps, do what
the functions of the structured store say.
-/

namespace Pfs3

open ByteList BlockCache Stop BitRun

/-! ## Lifting -/

section Lift

variable {α γ δ : Type} {Q : γ → δ → Prop} {g : Geometry} {w : Writer} {S : Store}

/-- A step of the code that cannot fail here. -/
theorem sim_lift_ok {e : Except Fault α} {a : α} (he : e = .ok a) {k : α → WriterM γ}
    {n : StoreM δ} (h : Sim (Rep g) Q (k a) n w S) :
    Sim (Rep g) Q ((liftM e : WriterM α) >>= k) n w S := by
  subst he
  exact sim_left rfl h

theorem sim_addU32 (h : Rep g w S) {a b : ℕ} {k : ℕ → WriterM γ} {k' : ℕ → StoreM δ}
    (hk : a + b < U32 → Sim (Rep g) Q (k (a + b)) (k' (a + b)) w S) :
    Sim (Rep g) Q ((liftM (addU32 a b) : WriterM ℕ) >>= k)
      ((liftM (addU32 a b) : StoreM ℕ) >>= k') w S := by
  by_cases hlt : a + b < U32
  · have he : addU32 a b = .ok (a + b) := if_pos hlt
    rw [he]
    exact hk hlt
  · have he : addU32 a b = .error .panic := if_neg hlt
    rw [he]
    exact sim_throw h

theorem sim_subU32 (h : Rep g w S) {a b : ℕ} {k : ℕ → WriterM γ} {k' : ℕ → StoreM δ}
    (hk : b ≤ a → Sim (Rep g) Q (k (a - b)) (k' (a - b)) w S) :
    Sim (Rep g) Q ((liftM (subU32 a b) : WriterM ℕ) >>= k)
      ((liftM (subU32 a b) : StoreM ℕ) >>= k') w S := by
  by_cases hle : b ≤ a
  · have he : subU32 a b = .ok (a - b) := if_pos hle
    rw [he]
    exact hk hle
  · have he : subU32 a b = .error .panic := if_neg hle
    rw [he]
    exact sim_throw h

end Lift

namespace Rep

variable {g : Geometry} {w : Writer} {S : Store}

/-- The writer's reads leave everything but the cache as it is. -/
theorem sameVol (h : Rep g w S) {v : Volume} (hv : w.vol.Same S.geo v) :
    Rep g { w with vol := v } S := by
  have hvol := h.vol.same hv
  obtain ⟨c, rfl, hc⟩ := hv
  exact { h with vol := hvol }

/-- A reader of the volume. -/
theorem onVol (h : Rep g w S) {α β : Type} {Q : α → β → Prop} {m : VolumeM α}
    {f : Meta → Reader β} (hr : Reads (w.vol.Same S.geo) Q m (f S.disk)) :
    Sim (Rep g) Q (Writer.onVol m) (Store.onDisk f) w S := by
  have hrun := hr w.vol h.vol.refl
  have hspec : Store.onDisk f S = (liftM (f S.disk) : StoreM β) S := rfl
  rcases hf : f S.disk with (e | _) | b <;> rw [hf] at hrun hspec
  · obtain ⟨v', hm, hv'⟩ := hrun
    refine sim_of_raise (u := { w with vol := v' }) ?_ hspec (h.sameVol hv')
    simp only [Writer.onVol, zoom, Writer.setVol, hm]
  · exact sim_of_stuck hspec
  · obtain ⟨a, v', hm, hQ, hv'⟩ := hrun
    refine sim_of_ok (u := { w with vol := v' }) ?_ hspec hQ (h.sameVol hv')
    simp only [Writer.onVol, zoom, Writer.setVol, hm]

theorem getChain (h : Rep g w S) (nr : ℕ) :
    Sim (Rep g) Eq (Writer.getChain nr) (Store.getChain nr) w S :=
  h.onVol (h.vol.getAnodeChain nr)

theorem listDirByAnode (h : Rep g w S) (nr : ℕ) :
    Sim (Rep g) Holds.Lists (Writer.onVol (Volume.listDirByAnode nr)) (Store.listDir nr) w S :=
  h.onVol (h.vol.listDirByAnode nr)

/-- Resolving a sequence number: the index block on the device. -/
theorem getAnodeBlockNr (h : Rep g w S) (s : ℕ) :
    ∃ v, w.vol.Same S.geo v ∧ Writer.getAnodeBlockNr s w = .ok (S.disk.index s) { w with vol := v } := by
  have hr := VolRep.onCache (h.vol.holds.resolve h.vol.reader s)
  obtain ⟨a, v, hm, rfl, hv⟩ := hr w.vol h.vol.refl
  refine ⟨v, hv, ?_⟩
  unfold Writer.getAnodeBlockNr
  rw [bind_of_ok (rfl : (get : WriterM Writer) w = .ok w w)]
  simp only [Writer.onVol, zoom, Writer.setVol, hm]

theorem currentAmigaDatestamp (h : Rep g w S) :
    Sim (Rep g) Eq Writer.currentAmigaDatestamp Store.currentAmigaDatestamp w S := by
  refine sim_of_ok (u := { w with asked := w.asked + 1 }) rfl rfl ?_
    { h with asked := congrArg (· + 1) h.asked }
  rw [h.clock, h.asked]

theorem nextDatestamp (h : Rep g w S) : Sim (Rep g) Eq Writer.nextDatestamp Store.nextDatestamp w S := by
  refine sim_get ?_
  rw [h.datestamp]
  refine sim_addU32 h fun hlt => ?_
  exact sim_of_ok rfl rfl rfl { h with datestamp := rfl, datestamp_lt := hlt }

/-! ## The reserved bitmap -/

theorem find?_range_of_lt {f : ℕ → Bool} {n k : ℕ} (hf : ∀ i, f i = true → i < n) (hk : n ≤ k) :
    (List.range n).find? f = (List.range k).find? f := by
  obtain ⟨d, rfl⟩ : ∃ d, k = n + d := ⟨k - n, by omega⟩
  rw [List.range_add, List.find?_append]
  have hnone : ((List.range d).map (n + ·)).find? f = none := by
    rw [List.find?_eq_none]
    intro i hi hfi
    obtain ⟨j, -, rfl⟩ := List.mem_map.mp hi
    have hlt := hf _ hfi
    omega
  rw [hnone, Option.or_none]

theorem modify_words {f g : ℕ → Bool} {n l : ℕ} {F : BitVec 32 → BitVec 32}
    (hF : F (word f (32 * l)) = word g (32 * l))
    (hfg : ∀ p, (p < 32 * l ∨ 32 * l + 32 ≤ p) → f p = g p) :
    (words f 0 n).modify l F = words g 0 n := by
  have hset := @words_set f g 0 n l (fun p hp => hfg p (by omega))
  rw [Nat.zero_add] at hset
  rw [← hset]
  apply List.ext_getElem (by simp)
  intro i hi hi'
  rw [List.getElem_modify, List.getElem_set, getElem_words, Nat.zero_add]
  by_cases hil : l = i
  · subst hil
    rw [if_pos rfl, if_pos rfl, hF]
  · rw [if_neg hil, if_neg hil]

theorem allocReservedBlock (h : Rep g w S) :
    Sim (Rep g) Eq Writer.allocReservedBlock Store.allocReservedBlock w S := by
  refine sim_get ?_
  have hlen := h.resBitmap_bounds
  have hfirst := Writer.firstFree_words S.resFree w.resBitmap.length 0
  have hrange : List.range' (0 * 32) (32 * w.resBitmap.length) =
      List.range (32 * w.resBitmap.length) := by
    rw [Nat.zero_mul, List.range_eq_range']
  rw [Nat.zero_mul] at hfirst
  rw [Nat.zero_mul] at hrange
  rw [hrange, ← find?_range_of_lt h.resFree hlen.1, ← h.resBitmap] at hfirst
  cases hff : Writer.firstFree 0 w.resBitmap with
  | none =>
      rw [hff] at hfirst
      simp only [← hfirst, Option.map_none]
      exact sim_throw h
  | some p =>
      obtain ⟨li, bit⟩ := p
      rw [hff] at hfirst
      have hmem : (List.range S.geo.numreserved).find? S.resFree = some (li * 32 + bit) :=
        hfirst.symm
      have hlt : li * 32 + bit < S.geo.numreserved :=
        List.mem_range.mp (List.mem_of_find?_eq_some hmem)
      rw [h.resBitmap] at hff
      obtain ⟨-, -, hbit⟩ := Writer.firstFree_lt hff
      have hpos : li * 32 + bit = 32 * li + bit := by omega
      have hbitmap : w.resBitmap.modify li (fun l => l &&& ~~~ Writer.bitMask bit) =
          words (Function.update S.resFree (li * 32 + bit) false) 0 w.resBitmap.length := by
        conv_lhs => rw [h.resBitmap]
        apply modify_words
        · rw [Writer.bitMask_eq, word_and_not_mask, hpos]
        · intro p hp
          rw [Function.update_of_ne (by omega)]
      simp only [hmem]
      refine sim_set_left (sim_set_right ?_)
      have hrep : Rep g
          { w with
            resBitmap := w.resBitmap.modify li fun l => l &&& ~~~ Writer.bitMask bit }
          { S with resFree := Function.update S.resFree (li * 32 + bit) false } :=
        { h with
          resBitmap := by
            simp only [List.length_modify]
            exact hbitmap
          resBitmap_length := by
            simp only [List.length_modify]
            exact h.resBitmap_length
          resFree := by
            intro k hk
            by_cases hkk : k = li * 32 + bit
            · rw [hkk]
              exact hlt
            · simp only [Function.update_of_ne hkk] at hk
              exact h.resFree k hk }
      rw [h.reservedFree]
      refine sim_subU32 hrep fun hle => ?_
      have hval : addU32 w.firstreserved ((li * 32 + bit) * w.rescluster) =
          .ok (Geometry.blockAt (li * 32 + bit)) := by
        have h₁ := S.geo.blockAt_lt hlt
        have h₂ := S.geo.dataStart_lt
        have h₃ := S.geo.disksize_lt
        have hU : U32 = 2 ^ 32 := rfl
        rw [h.firstreserved, h.rescluster]
        simp only [Geometry.blockAt] at h₁ ⊢
        exact if_pos (by omega)
      have hfree := h.reservedFree_lt
      refine sim_left (u := { w with
          resBitmap := w.resBitmap.modify li fun l => l &&& ~~~ Writer.bitMask bit
          vol.rootblock.reservedFree := S.reservedFree - 1 }) rfl ?_
      rw [hval]
      refine sim_of_ok rfl rfl rfl ?_
      exact { hrep with
        vol := { h.vol with
          rb := { h.vol.rb with }
          anodes := h.vol.anodes
          bitmap := h.vol.bitmap }
        reservedFree := rfl
        reservedFree_lt := by change S.reservedFree - 1 < U32; omega }

theorem freeReservedBlock (h : Rep g w S) (blk : ℕ) :
    Sim (Rep g) Eq (Writer.freeReservedBlock blk) (Store.freeReservedBlock blk) w S := by
  refine sim_get ?_
  by_cases hdyn : S.geo.IsDynamic blk
  · obtain ⟨k, hk, hk', rfl⟩ := hdyn
    have hlen := h.resBitmap_bounds
    have hsub : subU32 (Geometry.blockAt k) w.firstreserved = .ok (k * 2) := by
      rw [h.firstreserved]
      simp only [Geometry.blockAt]
      rw [subU32, if_pos (by omega)]
      congr 1
      omega
    have hidx : (Geometry.blockAt k - 2) / 2 = k := by simp only [Geometry.blockAt]; omega
    have hdiv : k * 2 / w.rescluster = k := by rw [h.rescluster]; omega
    have hpos : 32 * (k / 32) + k % 32 = k := by omega
    have hbitmap : w.resBitmap.modify (k / 32) (fun l => l ||| Writer.bitMask (k % 32)) =
        words (Function.update S.resFree k true) 0 w.resBitmap.length := by
      conv_lhs => rw [h.resBitmap]
      apply modify_words
      · rw [Writer.bitMask_eq, word_or_mask (by omega), hpos]
      · intro p hp
        rw [Function.update_of_ne (by omega)]
    rw [if_pos ⟨k, hk, hk', rfl⟩, hidx]
    refine sim_lift_ok hsub ?_
    rw [if_neg (by rw [h.rescluster]; omega)]
    simp only [hdiv]
    rw [if_pos (by omega)]
    refine sim_set_left (sim_set_right ?_)
    have hrep : Rep g
        { w with
          resBitmap := w.resBitmap.modify (k / 32) fun l => l ||| Writer.bitMask (k % 32) }
        { S with resFree := Function.update S.resFree k true } :=
      { h with
        resBitmap := by
          simp only [List.length_modify]
          exact hbitmap
        resBitmap_length := by
          simp only [List.length_modify]
          exact h.resBitmap_length
        resFree := by
          intro j hj
          by_cases hjk : j = k
          · rw [hjk]
            exact hk'
          · simp only [Function.update_of_ne hjk] at hj
            exact h.resFree j hj }
    rw [h.reservedFree]
    refine sim_addU32 hrep fun hlt => ?_
    exact sim_of_ok rfl rfl rfl { hrep with
      vol := { h.vol with
        rb := { h.vol.rb with }
        anodes := h.vol.anodes
        bitmap := h.vol.bitmap }
      reservedFree := rfl
      reservedFree_lt := hlt }
  · rw [if_neg hdyn]
    exact sim_stuck

/-! ## The data bitmap -/

theorem getElem?_dataBm (h : Rep g w S) {i : ℕ} (hi : i < S.geo.noBmb) :
    w.dataBm[i]? = some (S.geo.bm i, words S.live.free (i * 8096) 253) := by
  rw [h.dataBm, List.getElem?_map, List.getElem?_range hi]
  rfl

theorem setLongs_dataBm (h : Rep g w S) {i : ℕ} {free : ℕ → Bool}
    (hsame : ∀ r, (r < i * 8096 ∨ i * 8096 + 8096 ≤ r) → free r = S.live.free r) :
    (Writer.setLongs i (words free (i * 8096) 253) w).dataBm =
      (List.range S.geo.noBmb).map fun j => (S.geo.bm j, words free (j * 8096) 253) := by
  simp only [Writer.setLongs]
  rw [h.dataBm]
  apply List.ext_getElem (by simp)
  intro j hj hj'
  rw [List.getElem_modify, List.getElem_map, List.getElem_map, List.getElem_range]
  by_cases hij : i = j
  · subst hij
    rw [if_pos rfl]
  · rw [if_neg hij]
    congr 1
    apply words_congr
    intro p hp
    exact (hsame _ (by omega)).symm

/-- Changing the bits of one bitmap block and queueing the block. -/
theorem writeBitmap (h : Rep g w S) {i : ℕ} {free : ℕ → Bool} (hi : i < S.geo.noBmb)
    (hsame : ∀ r, (r < i * 8096 ∨ i * 8096 + 8096 ≤ r) → free r = S.live.free r)
    (hfree : ∀ r, free r = true → r < S.geo.dataBlocks) :
    ∃ w', Writer.writeDataBitmapBlock i (Writer.setLongs i (words free (i * 8096) 253) w) =
        .ok () w' ∧ Rep g w' { S with live.free := free } ∧
      w'.vol.rootblock = w.vol.rootblock ∧ w'.vol.dev = w.vol.dev := by
  have hbm := h.setLongs_dataBm hsame
  obtain ⟨ds, himage⟩ := h.live.bitmap i hi
  have hentry : (Writer.setLongs i (words free (i * 8096) 253) w).dataBm[i]? =
      some (S.geo.bm i, words free (i * 8096) 253) := by
    rw [hbm, List.getElem?_map, List.getElem?_range hi]
    rfl
  have hread : Writer.readReservedRaw (S.geo.bm i)
      (Writer.setLongs i (words free (i * 8096) 253) w) =
      .ok (w.overlay (S.geo.bm i)) (Writer.setLongs i (words free (i * 8096) 253) w) :=
    h.readReservedRaw_dataBm (S.geo.bm_isReserved hi) _
  rw [himage] at hread
  have hput := @putWords_bitmapImage ds w.datestamp i S.live.free free
  have hq := h.queued_dataBm (b := S.geo.bm i) (d := bitmapImage w.datestamp i free)
    (m := { S.live with free := free }) (Or.inr (Or.inr ⟨i, hi, rfl⟩)) (length_bitmapImage _ _ _)
    (h.live.setFree h.liveWf hi hsame) (h.liveWf.setFree hfree) h.index hbm
  refine ⟨_, ?_, hq, rfl, rfl⟩
  unfold Writer.writeDataBitmapBlock
  have hget : ∀ k : Writer → WriterM Unit, (get >>= k)
      (Writer.setLongs i (words free (i * 8096) 253) w) =
      k (Writer.setLongs i (words free (i * 8096) 253) w)
        (Writer.setLongs i (words free (i * 8096) 253) w) := fun _ => rfl
  rw [hget, hentry]
  simp only []
  rw [bind_of_ok hread]
  cases h₁ : putU32 (bitmapImage ds i S.live.free) 4 w.datestamp with
  | error f =>
      rw [h₁] at hput
      cases hput
  | ok data =>
      rw [h₁, ok_bind] at hput
      have hput' : putBytes data 12 ((words free (i * 8096) 253).flatMap fun l => enc32 l.toNat) =
          .ok (bitmapImage w.datestamp i free) := hput
      have hds : (Writer.setLongs i (words free (i * 8096) 253) w).datestamp = w.datestamp := rfl
      rw [hds, h₁]
      change ((liftM (putBytes data 12 ((words free (i * 8096) 253).flatMap
        fun l => enc32 l.toNat)) : WriterM Bytes) >>= fun data =>
          Writer.writeReserved (S.geo.bm i) data) _ = _
      rw [hput']
      rfl

/-- Freeing a data block. -/
theorem freeDataBlock (h : Rep g w S) (blk : ℕ) :
    Sim (Rep g) Eq (Writer.freeDataBlock blk) (Store.freeDataBlock blk) w S := by
  refine sim_get ?_
  rw [h.bitmapstart]
  by_cases hlow : blk < S.geo.dataStart
  · rw [if_pos hlow, if_pos hlow]
    exact sim_pure rfl h
  rw [if_neg hlow, if_neg hlow]
  by_cases hhigh : blk < S.geo.disksize
  · rw [if_pos hhigh]
    have hrel : blk - S.geo.dataStart < S.geo.dataBlocks := by
      simp only [Geometry.dataBlocks]
      omega
    generalize hr : blk - S.geo.dataStart = r at hrel
    have hle := S.geo.dataBlocks_le
    have hi : r / (253 * 32) < S.geo.noBmb := by omega
    simp only [h.indexPerBlock]
    rw [h.getElem?_dataBm hi]
    have hj : r % (253 * 32) / 32 < 253 := by omega
    simp only []
    rw [getElem?_words hj]
    simp only []
    generalize hii : r / (253 * 32) = i at hi
    generalize hq : r % (253 * 32) / 32 = q at hj
    have hpos : i * 8096 + 32 * q + r % (253 * 32) % 32 = r := by omega
    have hset : (words S.live.free (i * 8096) 253).set q
        (word S.live.free (i * 8096 + 32 * q) ||| Writer.bitMask (r % (253 * 32) % 32)) =
        words (Function.update S.live.free r true) (i * 8096) 253 := by
      rw [Writer.bitMask_eq, word_or_mask (by omega), hpos]
      apply words_set
      intro p hp
      rw [Function.update_of_ne (by omega)]
    have hsame : ∀ p, (p < i * 8096 ∨ i * 8096 + 8096 ≤ p) →
        Function.update S.live.free r true p = S.live.free p := by
      intro p hp
      rw [Function.update_of_ne (by omega)]
    have hfree : ∀ p, Function.update S.live.free r true p = true → p < S.geo.dataBlocks := by
      intro p hp
      by_cases hpr : p = r
      · rw [hpr]
        exact hrel
      · rw [Function.update_of_ne hpr] at hp
        exact h.liveWf.free p hp
    obtain ⟨w', hrun, hrep, hrb, hdev⟩ := h.writeBitmap hi hsame hfree
    rw [hset]
    refine sim_left (u := Writer.setLongs i (words (Function.update S.live.free r true)
      (i * 8096) 253) w) rfl ?_
    refine sim_left hrun (sim_set_right ?_)
    rw [h.blocksfree]
    refine sim_addU32 hrep fun hlt => ?_
    exact sim_of_ok rfl rfl rfl { hrep with
      vol := { hrep.vol with
        rb := { hrep.vol.rb with }
        anodes := hrep.vol.anodes
        bitmap := hrep.vol.bitmap }
      blocksfree := rfl
      blocksfree_lt := hlt }
  · rw [if_neg hhigh]
    exact sim_stuck

/-- What the rest of the scan of `alloc_data_blocks` does: the positions `t` are taken, the
free positions `c` are still to come. -/
def allocRest (count : ℕ) (t c : List ℕ) : StoreM (List ℕ) := do
  let S ← get
  if 0 < count ∧ count ≤ t.length + c.length then
    set { S with live.free := Writer.without S.live.free (Writer.taken count t.length c) }
    let free ← subU32 S.blocksfree count
    modify fun S => { S with blocksfree := free }
    pure ((t ++ Writer.taken count t.length c).map fun r => S.geo.dataStart + r)
  else
    set { S with live.free := Writer.without S.live.free c }
    Store.fail (.diskFull s!"not enough free blocks (need {count})")

theorem without_le {f : ℕ → Bool} {n : ℕ} (hf : ∀ r, f r = true → r < n) (t : List ℕ) (r : ℕ)
    (h : Writer.without f t r = true) : r < n := by
  unfold Writer.without at h
  exact hf r (by simp_all)

theorem range'_add_mul (a k n : ℕ) :
    List.range' a ((n + 1) * k) = List.range' a k ++ List.range' (a + k) (n * k) := by
  have hadd : (n + 1) * k = k + n * k := by ring
  rw [hadd, List.range'_append_1]

/-- The scan of one bitmap block. -/
theorem takeLongs_block {count D lim : ℕ} {f : ℕ → Bool} (hU : lim < U32) (i : ℕ)
    (hlim : ∀ r, f r = true → D + r < lim) (allocated : List ℕ)
    (hcount : allocated.length < count ∨ count = 0) :
    Writer.takeLongs count lim (D + i * 8096) (words f (i * 8096) 253) allocated =
      (words (Writer.without f (Writer.taken count allocated.length
          ((List.range' (i * 8096) 8096).filter f))) (i * 8096) 253,
        allocated ++ (Writer.taken count allocated.length
          ((List.range' (i * 8096) 8096).filter f)).map (D + ·),
        Writer.scanEnd count allocated.length ((List.range' (i * 8096) 8096).filter f)) := by
  have h : ∀ n bits base, bits = 32 * n →
      Writer.takeLongs count lim (D + base) (words f base n) allocated =
      (words (Writer.without f (Writer.taken count allocated.length
          ((List.range' base bits).filter f))) base n,
        allocated ++ (Writer.taken count allocated.length
          ((List.range' base bits).filter f)).map (D + ·),
        Writer.scanEnd count allocated.length ((List.range' base bits).filter f)) := by
    rintro n bits base rfl
    exact Writer.takeLongs_words hU n base f allocated hlim hcount
  exact h 253 8096 (i * 8096) (by norm_num)

/-- One round of the scan: the free positions `c₁` of bitmap block `i`, and `c₂` behind it. -/
theorem allocDataBlocksLoop_step (h : Rep g w S) {count n i : ℕ} {t c₁ : List ℕ} (c₂ : List ℕ)
    (hin : i < S.geo.noBmb) (hcount : t.length < count ∨ count = 0)
    (hc₁ : c₁ = (List.range' (i * 8096) 8096).filter S.live.free)
    (hrec : (t ++ c₁).length < count ∨ count = 0 →
      ∀ w', Rep g w' { S with live.free := Writer.without S.live.free c₁ } →
      Sim (Rep g) Eq
        (Writer.allocDataBlocksLoop count n (i + 1) ((t ++ c₁).map fun r => S.geo.dataStart + r))
        (allocRest count (t ++ c₁) c₂) w'
        { S with live.free := Writer.without S.live.free c₁ }) :
    Sim (Rep g) Eq
      (Writer.allocDataBlocksLoop count (n + 1) i (t.map fun r => S.geo.dataStart + r))
      (allocRest count t (c₁ ++ c₂)) w S := by
  have hds := S.geo.dataStart_lt
  have hsmall := S.geo.disksize_lt
  have hlim : ∀ r, S.live.free r = true →
      S.geo.dataStart + r < S.geo.disksize + S.geo.dataStart := by
    intro r hr
    have hlt := h.liveWf.free r hr
    simp only [Geometry.dataBlocks] at hlt
    omega
  have hU : S.geo.disksize + S.geo.dataStart < U32 := by
    have h32 : U32 = 2 ^ 32 := rfl
    omega
  have hlen : (t.map fun r => S.geo.dataStart + r).length = t.length := List.length_map _
  have hscan := takeLongs_block hU i hlim (t.map fun r => S.geo.dataStart + r)
    (by rw [hlen]; exact hcount)
  have hbase : i * 253 * 32 + S.geo.dataStart = S.geo.dataStart + i * 8096 := by omega
  have hlow : ∀ r ∈ c₁, i * 8096 ≤ r ∧ r < i * 8096 + 8096 := by
    intro r hr
    rw [hc₁] at hr
    exact List.mem_range'_1.mp (List.mem_of_mem_filter hr)
  rw [hlen, ← hc₁] at hscan
  have hsame : ∀ r, (r < i * 8096 ∨ i * 8096 + 8096 ≤ r) →
      Writer.without S.live.free (Writer.taken count t.length c₁) r = S.live.free r := by
    intro r hr
    have hnot : r ∉ Writer.taken count t.length c₁ := fun hmem => by
      have hb := hlow r (Writer.mem_taken hmem)
      omega
    simp [Writer.without, hnot]
  have hfree := without_le h.liveWf.free (Writer.taken count t.length c₁)
  refine sim_get_left ?_
  simp only [h.getElem?_dataBm hin, h.bitmapstart, h.indexPerBlock, h.vol.rb.disksize,
    Option.map_some, Option.getD_some, hbase, hscan]
  refine sim_left (u := Writer.setLongs i
    (words (Writer.without S.live.free (Writer.taken count t.length c₁)) (i * 8096) 253) w) rfl ?_
  rcases @Writer.scanEnd_cases count t.length c₁ with hend | hend
  · -- enough blocks: this bitmap block is the last one
    obtain ⟨htake, hend'⟩ := Writer.taken_append_of_done c₂ hend
    obtain ⟨w', hrun, hrep, hrb, -⟩ := h.writeBitmap hin hsame hfree
    have hcond : 0 < count ∧ count ≤ t.length + (c₁ ++ c₂).length := by
      by_contra hno
      rw [Writer.scanEnd, if_neg hno] at hend'
      cases hend'
    rw [hend]
    simp only []
    refine sim_get_right ?_
    rw [if_pos hcond, htake]
    refine sim_left hrun (sim_set_right ?_)
    rw [h.blocksfree]
    refine sim_subU32 hrep fun hle => ?_
    have hlt := h.blocksfree_lt
    refine sim_of_ok rfl rfl ?_ { hrep with
      vol := { hrep.vol with
        rb := { hrep.vol.rb with }
        anodes := hrep.vol.anodes
        bitmap := hrep.vol.bitmap }
      blocksfree := rfl
      blocksfree_lt := by change S.blocksfree - count < U32; omega }
    rw [List.map_append]
  · -- all free blocks of this bitmap block are taken
    obtain ⟨hall, htake, hend'⟩ := Writer.taken_append_of_more c₂ hend
    have hcount' : (t ++ c₁).length < count ∨ count = 0 := by
      have hno : ¬ (0 < count ∧ count ≤ t.length + c₁.length) := by
        intro hyes
        rw [Writer.scanEnd, if_pos hyes] at hend
        cases hend
      rw [List.length_append]
      omega
    rw [hend]
    simp only []
    rw [hall] at hsame hfree ⊢
    -- the rest of the scan starts from the bitmap without the positions of this block
    have hnext : ∀ w', Rep g w' { S with live.free := Writer.without S.live.free c₁ } →
        Sim (Rep g) Eq
          (Writer.allocDataBlocksLoop count n (i + 1) ((t ++ c₁).map fun r => S.geo.dataStart + r))
          (allocRest count t (c₁ ++ c₂)) w' S := by
      intro w' hw'
      have hr := hrec hcount' w' hw'
      have hget : ∀ (k : Store → StoreM (List ℕ)) (T : Store), (get >>= k) T = k T T :=
        fun _ _ => rfl
      unfold allocRest at hr ⊢
      unfold Sim at hr ⊢
      rw [hget] at hr ⊢
      simp only [List.length_append, Nat.add_assoc, ← Writer.without_append, htake,
        List.append_assoc] at hr ⊢
      by_cases hcond : 0 < count ∧ count ≤ t.length + (c₁.length + c₂.length)
      · rw [if_pos hcond] at hr ⊢
        exact hr
      · rw [if_neg hcond] at hr ⊢
        exact hr
    rw [← List.map_append]
    by_cases hnil : ((t ++ c₁).map fun r => S.geo.dataStart + r) = []
    · have hc : c₁ = [] := (List.append_eq_nil_iff.mp (List.map_eq_nil_iff.mp hnil)).2
      rw [if_neg (by simpa using hnil)]
      apply hnext
      have hbm := h.setLongs_dataBm hsame
      exact { h with
        dataBm := hbm
        live := by
          have hlive := h.live
          simp only [hc, Writer.without_nil]
          exact hlive
        liveWf := by
          simp only [hc, Writer.without_nil]
          exact h.liveWf }
    · rw [if_pos hnil]
      obtain ⟨w', hrun, hrep, -, -⟩ := h.writeBitmap hin hsame hfree
      exact sim_left hrun (hnext w' hrep)

/-- The scan, bitmap block by bitmap block: the blocks before `i` have no free position left. -/
theorem allocDataBlocksLoop (count n : ℕ) : ∀ (i : ℕ) (t : List ℕ) {w : Writer} {S : Store},
    Rep g w S → i + n = S.geo.noBmb → (t.length < count ∨ count = 0) →
    Sim (Rep g) Eq
      (Writer.allocDataBlocksLoop count n i (t.map fun r => S.geo.dataStart + r))
      (allocRest count t ((List.range' (i * 8096) (n * 8096)).filter S.live.free)) w S := by
  induction n with
  | zero =>
      intro i t w S h hi hcount
      have hrange : List.range' (i * 8096) (0 * 8096) = [] := by rw [Nat.zero_mul]; rfl
      rw [hrange, List.filter_nil]
      refine sim_get_right ?_
      rw [if_neg (by simp only [List.length_nil]; omega), Writer.without_nil]
      exact sim_of_raise rfl rfl h
  | succ n ih =>
      intro i t w S h hi hcount
      have hnext : (i + 1) * 8096 = i * 8096 + 8096 := by omega
      have hlow : ∀ q, q ∈ List.range' ((i + 1) * 8096) (n * 8096) →
          q ∉ (List.range' (i * 8096) 8096).filter S.live.free := by
        intro q hq hmem
        have h₁ := (List.mem_range'_1.mp hq).1
        have h₂ := (List.mem_range'_1.mp (List.mem_of_mem_filter hmem)).2
        omega
      have hfilter := Writer.filter_without (f := S.live.free) hlow
      rw [range'_add_mul, List.filter_append, ← hnext]
      refine h.allocDataBlocksLoop_step _ (by omega) hcount rfl fun hcount' w' hw' => ?_
      have hrec := ih (i + 1) (t ++ (List.range' (i * 8096) 8096).filter S.live.free) hw'
        (by simp only []; omega) hcount'
      simp only [hfilter] at hrec
      exact hrec

/-- Allocating data blocks: the first free ones, or none and the bitmap is left empty. -/
theorem allocDataBlocks (h : Rep g w S) (count : ℕ) :
    Sim (Rep g) Eq (Writer.allocDataBlocks count) (Store.allocDataBlocks count) w S := by
  refine sim_get_left ?_
  have hlen : w.dataBm.length = S.geo.noBmb := by rw [h.dataBm]; simp
  have hloop := allocDataBlocksLoop count S.geo.noBmb 0 [] h (by omega) (by
    simp only [List.length_nil]
    omega)
  have hle := S.geo.dataBlocks_le
  have hfree : (List.range' (0 * 8096) (S.geo.noBmb * 8096)).filter S.live.free = S.freeBlocks := by
    obtain ⟨d, hd⟩ : ∃ d, S.geo.noBmb * 8096 = S.geo.dataBlocks + d :=
      ⟨S.geo.noBmb * 8096 - S.geo.dataBlocks, by omega⟩
    rw [Nat.zero_mul, ← List.range_eq_range', hd, List.range_add, List.filter_append,
      Store.freeBlocks]
    have hnone : ((List.range d).map (S.geo.dataBlocks + ·)).filter S.live.free = [] := by
      rw [List.filter_eq_nil_iff]
      intro r hr hfr
      obtain ⟨j, -, rfl⟩ := List.mem_map.mp hr
      have hlt := h.liveWf.free _ hfr
      omega
    rw [hnone, List.append_nil]
  rw [hfree] at hloop
  rw [hlen]
  have hspec : Store.allocDataBlocks count S = allocRest count [] S.freeBlocks S := by
    have hget : ∀ k : Store → StoreM (List ℕ), (get >>= k) S = k S S := fun _ => rfl
    unfold Store.allocDataBlocks allocRest
    rw [hget, hget]
    simp only [List.length_nil, Nat.zero_add, List.nil_append]
    by_cases hcond : 0 < count ∧ count ≤ S.freeBlocks.length
    · have htaken : Writer.taken count 0 S.freeBlocks = S.freeBlocks.take count := by
        rw [Writer.taken, if_neg (by omega), Nat.sub_zero]
      rw [if_pos hcond, if_pos hcond, htaken]
      rfl
    · have hempty : Writer.without S.live.free S.freeBlocks = fun _ => false := by
        funext r
        by_cases hr : S.live.free r = true
        · have hmem : r ∈ S.freeBlocks := by
            rw [Store.freeBlocks, List.mem_filter, List.mem_range]
            exact ⟨h.liveWf.free r hr, hr⟩
          simp [Writer.without, hmem]
        · simp [Writer.without, hr]
      rw [if_neg hcond, if_neg hcond, hempty]
  unfold Sim at hloop ⊢
  rw [hspec]
  exact hloop

end Rep

end Pfs3
