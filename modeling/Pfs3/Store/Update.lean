import Pfs3.Store.Readers
import Pfs3.Store.Scan

/-!
# Updates of the representation

Each write of the code to the queue of pending writes changes one block; the lemmas say which
change of the structured content that is.
-/

namespace Pfs3

open ByteList BlockCache Stop

/-! ## Content -/

namespace Represents

variable {g : Geometry} {read : ℕ → Bytes} {m : Meta}

theorem congr {read' : ℕ → Bytes} (h : Represents g read m) (hwf : m.Wf g)
    (hread : ∀ b, g.IsReserved b → read' b = read b) : Represents g read' m where
  index := by rw [hread _ g.anidx_isReserved]; exact h.index
  anodes s hs := by rw [hread _ (hwf.indexed s hs).2.isReserved]; exact h.anodes s hs
  dirs b d hd := by rw [hread _ (hwf.dir b d hd).2.1.isReserved]; exact h.dirs b d hd
  bitmap i hi := by rw [hread _ (g.bm_isReserved hi)]; exact h.bitmap i hi
  bmi i hi := by rw [hread _ (g.bmi_isReserved hi)]; exact h.bmi i hi

/-- A directory block. -/
theorem setDir (h : Represents g read m) {b ds : ℕ} {d : DirBlock} (hb : g.IsDynamic b)
    (hfree : ∀ s, m.index s ≠ b) :
    Represents g (Function.update read b (dirImage ds d))
      { m with dir := Function.update m.dir b (some d) } where
  index := by
    rw [Function.update_of_ne hb.ne_anidx.symm]
    exact h.index
  anodes s hs := by
    rw [Function.update_of_ne (hfree s)]
    exact h.anodes s hs
  dirs b' d' hd := by
    by_cases hbb : b' = b
    · subst hbb
      simp only [Function.update_self, Option.some.injEq] at hd
      rw [Function.update_self, ← hd]
      exact ⟨ds, rfl⟩
    · simp only [Function.update_of_ne hbb] at hd
      rw [Function.update_of_ne hbb]
      exact h.dirs b' d' hd
  bitmap i hi := by
    rw [Function.update_of_ne (hb.ne_bm hi).symm]
    exact h.bitmap i hi
  bmi i hi := by
    rw [Function.update_of_ne (hb.ne_bmi hi).symm]
    exact h.bmi i hi

/-- Any bytes in a block that is no anode block: it is no directory block any more. -/
theorem clearDir (h : Represents g read m) {b : ℕ} {data : Bytes} (hb : g.IsDynamic b)
    (hfree : ∀ s, m.index s ≠ b) :
    Represents g (Function.update read b data)
      { m with dir := Function.update m.dir b none } where
  index := by
    rw [Function.update_of_ne hb.ne_anidx.symm]
    exact h.index
  anodes s hs := by
    rw [Function.update_of_ne (hfree s)]
    exact h.anodes s hs
  dirs b' d' hd := by
    by_cases hbb : b' = b
    · subst hbb
      simp only [Function.update_self, reduceCtorEq] at hd
    · simp only [Function.update_of_ne hbb] at hd
      rw [Function.update_of_ne hbb]
      exact h.dirs b' d' hd
  bitmap i hi := by
    rw [Function.update_of_ne (hb.ne_bm hi).symm]
    exact h.bitmap i hi
  bmi i hi := by
    rw [Function.update_of_ne (hb.ne_bmi hi).symm]
    exact h.bmi i hi

theorem anodeImage_congr {ds s : ℕ} {slot slot' : ℕ → Slot}
    (h : ∀ off < SLOTS, slot' (s * 65536 + off) = slot (s * 65536 + off)) :
    anodeImage ds s slot' = anodeImage ds s slot := by
  unfold anodeImage
  congr 1
  apply List.flatMap_congr
  intro off hoff
  rw [h off (List.mem_range.mp hoff)]

/-- An anode slot. -/
theorem setSlot (h : Represents g read m) (hwf : m.Wf g) {ds seq off : ℕ} {s : Slot}
    (hseq : m.index seq ≠ 0) (hoff : off < SLOTS) :
    Represents g
      (Function.update read (m.index seq)
        (anodeImage ds seq (Function.update m.slot (seq * 65536 + off) s)))
      { m with slot := Function.update m.slot (seq * 65536 + off) s } where
  index := by
    rw [Function.update_of_ne (hwf.indexed seq hseq).2.ne_anidx.symm]
    exact h.index
  anodes s' hs' := by
    by_cases hss : s' = seq
    · subst hss
      rw [Function.update_self]
      exact ⟨ds, rfl⟩
    · have hne : m.index s' ≠ m.index seq := fun heq => hss (hwf.inj s' seq hs' heq)
      obtain ⟨ds', himage⟩ := h.anodes s' hs'
      refine ⟨ds', ?_⟩
      rw [Function.update_of_ne hne, himage]
      symm
      apply anodeImage_congr
      intro off' hoff'
      have hne' : s' * 65536 + off' ≠ seq * 65536 + off := by
        simp only [SLOTS] at hoff hoff'
        omega
      change Function.update m.slot (seq * 65536 + off) s (s' * 65536 + off') = _
      rw [Function.update_of_ne hne']
  dirs b d hd := by
    rw [Function.update_of_ne ((hwf.dir b d hd).2.2 seq).symm]
    exact h.dirs b d hd
  bitmap i hi := by
    rw [Function.update_of_ne ((hwf.indexed seq hseq).2.ne_bm hi).symm]
    exact h.bitmap i hi
  bmi i hi := by
    rw [Function.update_of_ne ((hwf.indexed seq hseq).2.ne_bmi hi).symm]
    exact h.bmi i hi

/-- A new anode block, already written, entered into the index. -/
theorem register (h : Represents g read m) (hwf : m.Wf g) {ds ds' seq b : ℕ} (hb : g.IsDynamic b)
    (hread : read b = anodeImage ds' seq fun _ => .empty) :
    Represents g
      (Function.update read g.anidx (indexImage ds (Function.update m.index seq b)))
      { m with
        index := Function.update m.index seq b
        slot := fun nr => if nr / 65536 = seq then .empty else m.slot nr } where
  index := by
    rw [Function.update_self]
    exact ⟨ds, rfl⟩
  anodes s hs := by
    by_cases hss : s = seq
    · subst hss
      simp only [Function.update_self]
      rw [Function.update_of_ne hb.ne_anidx, hread]
      refine ⟨ds', ?_⟩
      symm
      apply anodeImage_congr
      intro off hoff
      simp only [SLOTS] at hoff
      rw [if_pos (by omega)]
    · simp only [Function.update_of_ne hss] at hs ⊢
      rw [Function.update_of_ne (hwf.indexed s hs).2.ne_anidx]
      obtain ⟨ds', himage⟩ := h.anodes s hs
      refine ⟨ds', ?_⟩
      rw [himage]
      symm
      apply anodeImage_congr
      intro off hoff
      simp only [SLOTS] at hoff
      rw [if_neg (by omega)]
  dirs b' d hd := by
    rw [Function.update_of_ne (hwf.dir b' d hd).2.1.ne_anidx]
    exact h.dirs b' d hd
  bitmap i hi := by
    have hne : g.bm i ≠ g.anidx := by
      simp only [Geometry.bm, Geometry.anidx, Geometry.blockAt]
      omega
    rw [Function.update_of_ne hne]
    exact h.bitmap i hi
  bmi i hi := by
    have hne : g.bmi i ≠ g.anidx := by
      simp only [Geometry.bmi, Geometry.anidx, Geometry.blockAt]
      omega
    rw [Function.update_of_ne hne]
    exact h.bmi i hi

/-- One bitmap block: the predicate changes only in the positions of that block. -/
theorem setFree (h : Represents g read m) (hwf : m.Wf g) {ds i : ℕ} {free : ℕ → Bool}
    (hi : i < g.noBmb)
    (hsame : ∀ r, (r < i * 8096 ∨ i * 8096 + 8096 ≤ r) → free r = m.free r) :
    Represents g (Function.update read (g.bm i) (bitmapImage ds i free)) { m with free := free }
    where
  index := by
    have hne : g.anidx ≠ g.bm i := by
      simp only [Geometry.bm, Geometry.anidx, Geometry.blockAt]
      omega
    rw [Function.update_of_ne hne]
    exact h.index
  anodes s hs := by
    rw [Function.update_of_ne ((hwf.indexed s hs).2.ne_bm hi)]
    exact h.anodes s hs
  dirs b d hd := by
    rw [Function.update_of_ne ((hwf.dir b d hd).2.1.ne_bm hi)]
    exact h.dirs b d hd
  bitmap j hj := by
    by_cases hij : j = i
    · subst hij
      rw [Function.update_self]
      exact ⟨ds, rfl⟩
    · have hne : g.bm j ≠ g.bm i := by
        simp only [Geometry.bm, Geometry.blockAt]
        omega
      obtain ⟨ds', himage⟩ := h.bitmap j hj
      refine ⟨ds', ?_⟩
      rw [Function.update_of_ne hne, himage, bitmapImage, bitmapImage]
      congr 2
      apply BitRun.words_congr
      intro p hp
      exact (hsame _ (by omega)).symm
  bmi j hj := by
    have hne : g.bmi j ≠ g.bm i := by
      simp only [Geometry.bmi, Geometry.bm, Geometry.blockAt]
      omega
    rw [Function.update_of_ne hne]
    exact h.bmi j hj

end Represents

namespace Meta.Wf

variable {g : Geometry} {m : Meta}

theorem setDir (h : m.Wf g) {b : ℕ} {d : DirBlock} (hb : g.IsDynamic b) (hfree : ∀ s, m.index s ≠ b)
    (hfit : d.Fits) : Wf g { m with dir := Function.update m.dir b (some d) } where
  indexed := h.indexed
  inj := h.inj
  dir b' d' hd := by
    by_cases hbb : b' = b
    · subst hbb
      simp only [Function.update_self, Option.some.injEq] at hd
      rw [← hd]
      exact ⟨hfit, hb, hfree⟩
    · simp only [Function.update_of_ne hbb] at hd
      exact h.dir b' d' hd
  free := h.free

theorem clearDir (h : m.Wf g) (b : ℕ) : Wf g { m with dir := Function.update m.dir b none } where
  indexed := h.indexed
  inj := h.inj
  dir b' d' hd := by
    by_cases hbb : b' = b
    · subst hbb
      simp only [Function.update_self, reduceCtorEq] at hd
    · simp only [Function.update_of_ne hbb] at hd
      exact h.dir b' d' hd
  free := h.free

theorem setSlot (h : m.Wf g) (slot : ℕ → Slot) : Wf g { m with slot := slot } :=
  ⟨h.indexed, h.inj, h.dir, h.free⟩

theorem setFree (h : m.Wf g) {free : ℕ → Bool} (hfree : ∀ r, free r = true → r < g.dataBlocks) :
    Wf g { m with free := free } := ⟨h.indexed, h.inj, h.dir, hfree⟩

theorem register (h : m.Wf g) {seq b : ℕ} (hseq : seq < 253) (hb : g.IsDynamic b)
    (hfree : ∀ s, m.index s ≠ b) (hdir : m.dir b = none) (slot : ℕ → Slot) :
    Wf g { m with index := Function.update m.index seq b, slot := slot } where
  indexed s hs := by
    by_cases hss : s = seq
    · subst hss
      simp only [Function.update_self]
      exact ⟨hseq, hb⟩
    · simp only [Function.update_of_ne hss] at hs ⊢
      exact h.indexed s hs
  inj s t hs hst := by
    by_cases hss : s = seq
    · by_cases htt : t = seq
      · rw [hss, htt]
      · simp only [hss, Function.update_self, Function.update_of_ne htt] at hst
        exact absurd hst.symm (hfree t)
    · by_cases htt : t = seq
      · simp only [htt, Function.update_self, Function.update_of_ne hss] at hst
        exact absurd hst (hfree s)
      · simp only [Function.update_of_ne hss, Function.update_of_ne htt] at hs hst
        exact h.inj s t hs hst
  dir b' d hd := by
    obtain ⟨hfit, hdyn, hne⟩ := h.dir b' d hd
    refine ⟨hfit, hdyn, fun s => ?_⟩
    by_cases hss : s = seq
    · subst hss
      simp only [Function.update_self]
      rintro rfl
      rw [hdir] at hd
      cases hd
    · simp only [Function.update_of_ne hss]
      exact hne s
  free := h.free

end Meta.Wf

/-! ## The queue -/

namespace Writer

theorem lookup_queueWrite (b : ℕ) (data : Bytes) (q : List (ℕ × Bytes)) (k : ℕ) :
    (queueWrite b data q).lookup k = if k = b then some data else q.lookup k := by
  induction q with
  | nil =>
      by_cases hk : k = b
      · simp [queueWrite, hk]
      · have hk' : (k == b) = false := by simpa using hk
        simp [queueWrite, List.lookup_cons, hk, hk']
  | cons p q ih =>
      obtain ⟨b', d'⟩ := p
      unfold queueWrite
      by_cases hb : b' = b
      · subst hb
        rw [if_pos rfl, List.lookup_cons, List.lookup_cons]
        by_cases hk : k = b'
        · simp [hk]
        · have hk' : (k == b') = false := by simpa using hk
          rw [hk', if_neg hk]
      · rw [if_neg hb, List.lookup_cons, List.lookup_cons, ih]
        by_cases hk : k = b'
        · subst hk
          simp [hb]
        · have hk' : (k == b') = false := by simpa using hk
          rw [hk']

theorem mem_queueWrite {b : ℕ} {data : Bytes} {q : List (ℕ × Bytes)} {p : ℕ × Bytes}
    (h : p ∈ queueWrite b data q) : p = (b, data) ∨ p ∈ q := by
  induction q with
  | nil => simpa [queueWrite] using h
  | cons p' q ih =>
      obtain ⟨b', d'⟩ := p'
      unfold queueWrite at h
      split at h
      · rcases List.mem_cons.mp h with h | h
        · exact Or.inl h
        · exact Or.inr (List.mem_cons_of_mem _ h)
      · rcases List.mem_cons.mp h with h | h
        · rw [h]
          exact Or.inr List.mem_cons_self
        · rcases ih h with h | h
          · exact Or.inl h
          · exact Or.inr (List.mem_cons_of_mem _ h)

theorem keys_queueWrite (b : ℕ) (data : Bytes) (q : List (ℕ × Bytes)) :
    (queueWrite b data q).map Prod.fst = q.map Prod.fst ∨
      (b ∉ q.map Prod.fst ∧ (queueWrite b data q).map Prod.fst = q.map Prod.fst ++ [b]) := by
  induction q with
  | nil => exact Or.inr ⟨by simp, rfl⟩
  | cons p q ih =>
      obtain ⟨b', d'⟩ := p
      unfold queueWrite
      by_cases hb : b' = b
      · rw [if_pos hb]
        left
        simp [hb]
      · rw [if_neg hb]
        rcases ih with ih | ⟨hnot, ih⟩
        · left
          simp [ih]
        · right
          refine ⟨?_, by simp [ih]⟩
          simp only [List.map_cons, List.mem_cons, not_or]
          exact ⟨fun h => hb h.symm, hnot⟩

theorem nodup_queueWrite {b : ℕ} {data : Bytes} {q : List (ℕ × Bytes)}
    (h : (q.map Prod.fst).Nodup) : ((queueWrite b data q).map Prod.fst).Nodup := by
  rcases keys_queueWrite b data q with hk | ⟨hnot, hk⟩
  · rw [hk]
    exact h
  · rw [hk, List.nodup_append]
    refine ⟨h, by simp, ?_⟩
    intro a ha c hc
    rw [List.mem_singleton.mp hc]
    rintro rfl
    exact hnot ha

/-- The state after `write_reserved`. -/
def queued (b : ℕ) (data : Bytes) (w : Writer) : Writer :=
  { invalidate b w with pendingWrites := queueWrite b data w.pendingWrites }

theorem overlay_queued (b : ℕ) (data : Bytes) (w : Writer) :
    (queued b data w).overlay = Function.update w.overlay b data := by
  funext k
  have h := lookup_queueWrite b data w.pendingWrites k
  by_cases hk : k = b
  · subst hk
    rw [if_pos rfl] at h
    simp only [overlay, queued, h, Option.getD_some, Function.update_self]
  · rw [if_neg hk] at h
    rw [Function.update_of_ne hk]
    simp only [overlay, queued, h]
    rfl

theorem readReservedRaw_run (b : ℕ) (w : Writer) : Writer.readReservedRaw b w =
    (match w.pendingWrites.lookup b with
    | some data => pure data
    | none => (liftM (w.vol.dev.readBlocks b w.rescluster w.resblocksize) : WriterM Bytes)) w :=
  rfl

end Writer

namespace Rep

variable {g : Geometry} {w : Writer} {S : Store}

/-- Reading a reserved block, the queue included; the bitmap in memory does not matter. -/
theorem readReservedRaw_dataBm (h : Rep g w S) {b : ℕ} (hb : S.geo.IsReserved b)
    (bm : List (ℕ × List (BitVec 32))) :
    Writer.readReservedRaw b { w with dataBm := bm } = .ok (w.overlay b) { w with dataBm := bm } := by
  have hread : w.vol.dev.readBlocks b w.rescluster w.resblocksize =
      .ok (w.vol.dev.bytesAt b 2) := by
    have hr := Device.readReserved_ok h.vol.total hb
    rw [h.rescluster, h.resblocksize]
    exact hr
  rw [Writer.readReservedRaw_run]
  dsimp only
  unfold Writer.overlay
  cases w.pendingWrites.lookup b with
  | some data => rfl
  | none =>
      rw [hread]
      rfl

theorem readReservedRaw (h : Rep g w S) {b : ℕ} (hb : S.geo.IsReserved b) :
    Writer.readReservedRaw b w = .ok (w.overlay b) w := h.readReservedRaw_dataBm hb w.dataBm

/-- Queueing a block: the new content is what the updated overlay represents. -/
theorem queued_dataBm (h : Rep g w S) {b : ℕ} {d : Bytes} (hb : S.geo.IsQueued b)
    (hlen : d.length = 1024) {m : Meta}
    (hlive : Represents S.geo (Function.update w.overlay b d) m) (hwf : m.Wf S.geo)
    (hindex : ∀ s, S.disk.index s ≠ 0 → m.index s = S.disk.index s)
    {bm : List (ℕ × List (BitVec 32))} (hbm : bm = (List.range S.geo.noBmb).map fun i =>
      (S.geo.bm i, BitRun.words m.free (i * 8096) 253)) :
    Rep g { Writer.queued b d w with dataBm := bm } { S with live := m } :=
  { h with
    vol := { h.vol with cache := h.vol.cache.invalidate b }
    dataBm := hbm
    queue_nodup := Writer.nodup_queueWrite h.queue_nodup
    queue := by
      intro b' d' hmem
      rcases Writer.mem_queueWrite hmem with heq | hmem
      · cases heq
        exact ⟨hb, hlen⟩
      · exact h.queue b' d' hmem
    live := by
      have hover : ({ Writer.queued b d w with dataBm := bm } : Writer).overlay =
          Function.update w.overlay b d := Writer.overlay_queued b d w
      rw [hover]
      exact hlive
    liveWf := hwf
    index := hindex }

theorem queued (h : Rep g w S) {b : ℕ} {d : Bytes} (hb : S.geo.IsQueued b)
    (hlen : d.length = 1024) {m : Meta}
    (hlive : Represents S.geo (Function.update w.overlay b d) m) (hwf : m.Wf S.geo)
    (hindex : ∀ s, S.disk.index s ≠ 0 → m.index s = S.disk.index s)
    (hfree : m.free = S.live.free) :
    Rep g (Writer.queued b d w) { S with live := m } :=
  h.queued_dataBm hb hlen hlive hwf hindex (by rw [hfree, ← h.dataBm]; rfl)

end Rep

end Pfs3
