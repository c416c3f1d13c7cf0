import Pfs3.Lib.Sim
import Pfs3.Model.Cache

/-!
# The cache is transparent

A cache whose entries agree with the device answers every read as the device does, and still
agrees with it afterwards.
-/

namespace Pfs3

open ByteList Stop

/-- A reserved block as it is on the device. -/
def Device.readReserved (dev : Device) (rbs block : ℕ) : Except Fault Bytes :=
  dev.readBlocks block (max (rbs / SECTOR_SIZE) 1) rbs

/-- The code's result as a specification. -/
def raised {α : Type} : Except Fault α → Except (Stop Fault) α
  | .ok a => .ok a
  | .error f => .error (.raise f)

/-- The result of a call, without the state. -/
def outcome {σ α : Type} : EStateM.Result Fault σ α → Except Fault α
  | .ok a _ => .ok a
  | .error f _ => .error f

theorem outcome_of_reads {σ α : Type} {I : σ → Prop} {m : EStateM Fault σ α} {e : Except Fault α}
    (h : Reads I Eq m (raised e)) {s : σ} (hs : I s) : outcome (m s) = e := by
  cases e with
  | error f =>
      obtain ⟨s', hm, -⟩ := h.raise hs
      rw [hm]
      rfl
  | ok a =>
      obtain ⟨_, s', hm, rfl, -⟩ := h.ok hs
      rw [hm]
      rfl

namespace BlockCache

/-- Every entry is for a block with `P` and is what the device holds. -/
def Coherent (dev : Device) (rbs : ℕ) (P : ℕ → Prop) (c : BlockCache) : Prop :=
  ∀ k e, c.entries.lookup k = some e → P k ∧ dev.readReserved rbs k = .ok e.data

variable {dev : Device} {rbs : ℕ} {P : ℕ → Prop} {c : BlockCache}

theorem coherent_new : Coherent dev rbs P .new := by
  intro k e h
  cases h

theorem lookup_filter_ne {β : Type} (l : List (ℕ × β)) (block k : ℕ) :
    (l.filter fun p => p.1 != block).lookup k = if k = block then none else l.lookup k := by
  induction l with
  | nil => simp
  | cons p l ih =>
      obtain ⟨b, e⟩ := p
      by_cases hb : b = block
      · subst hb
        rw [List.filter_cons_of_neg (by simp), ih]
        by_cases hk : k = b
        · simp [hk]
        · have hk' : (k == b) = false := by simpa using hk
          rw [if_neg hk, if_neg hk, List.lookup_cons, hk']
      · rw [List.filter_cons_of_pos (by simpa using hb), List.lookup_cons, List.lookup_cons, ih]
        by_cases hk : k = b
        · subst hk
          simp [hb]
        · have hk' : (k == b) = false := by simpa using hk
          rw [hk']

theorem lookup_map_generation (l : List (ℕ × CacheEntry)) (block g k : ℕ) {e : CacheEntry}
    (h : (l.map fun p => if p.1 = block then (p.1, { p.2 with generation := g }) else p).lookup k =
      some e) : ∃ e', l.lookup k = some e' ∧ e'.data = e.data := by
  induction l with
  | nil => cases h
  | cons p l ih =>
      obtain ⟨b, d⟩ := p
      rw [List.map_cons, List.lookup_cons] at h
      rw [List.lookup_cons]
      by_cases hb : b = block
      · rw [if_pos hb] at h
        by_cases hk : k = b
        · have hk' : (k == b) = true := by simpa using hk
          simp only [hk', Option.some.injEq] at h ⊢
          exact ⟨d, rfl, by rw [← h]⟩
        · have hk' : (k == b) = false := by simpa using hk
          simp only [hk'] at h ⊢
          exact ih h
      · rw [if_neg hb] at h
        by_cases hk : k = b
        · have hk' : (k == b) = true := by simpa using hk
          simp only [hk', Option.some.injEq] at h ⊢
          exact ⟨d, rfl, by rw [h]⟩
        · have hk' : (k == b) = false := by simpa using hk
          simp only [hk'] at h ⊢
          exact ih h

theorem Coherent.invalidate (h : c.Coherent dev rbs P) (block : ℕ) :
    (c.invalidate block).Coherent dev rbs P := by
  intro k e hk
  have hl := lookup_filter_ne c.entries block k
  change (c.entries.filter fun p => p.1 != block).lookup k = some e at hk
  rw [hl] at hk
  split at hk
  · cases hk
  · exact h k e hk

theorem Coherent.evict (h : c.Coherent dev rbs P) : c.evict.Coherent dev rbs P := by
  unfold BlockCache.evict
  split
  · split
    · exact h.invalidate _
    · exact h
  · exact h

theorem readReserved_hit {block : ℕ} {e : CacheEntry} (h : c.entries.lookup block = some e) :
    readReserved dev block rbs c = .ok e.data
      { c with
        generation := c.generation + 1
        entries := c.entries.map fun p =>
          if p.1 = block then (p.1, { p.2 with generation := c.generation + 1 }) else p } := by
  unfold readReserved
  simp only [h]

theorem readReserved_miss {block : ℕ} (h : c.entries.lookup block = none) :
    readReserved dev block rbs c =
      match dev.readReserved rbs block with
      | .error f => .error f { c with generation := c.generation + 1 }
      | .ok buf => .ok buf
          { ({ c with generation := c.generation + 1 } : BlockCache).evict with
            entries := (block, ⟨buf, c.generation + 1⟩) ::
              ({ c with generation := c.generation + 1 } : BlockCache).evict.entries } := by
  unfold readReserved
  simp only [h]
  rfl

/-- A read through the cache is a read of the device. -/
theorem readReserved_reads {block : ℕ} (hP : P block) :
    Reads (Coherent dev rbs P) Eq (readReserved dev block rbs)
      (raised (dev.readReserved rbs block)) := by
  intro c hc
  cases hl : c.entries.lookup block with
  | some e =>
      rw [readReserved_hit hl, (hc block e hl).2]
      refine ⟨e.data, _, rfl, rfl, ?_⟩
      intro k e' hk
      obtain ⟨e'', hk, hdata⟩ := lookup_map_generation _ _ _ _ hk
      rw [← hdata]
      exact hc k e'' hk
  | none =>
      rw [readReserved_miss hl]
      cases hr : dev.readReserved rbs block with
      | error f => exact ⟨_, rfl, hc⟩
      | ok buf =>
          refine ⟨buf, _, rfl, rfl, ?_⟩
          intro k e hk
          have hevict : (({ c with generation := c.generation + 1 } : BlockCache).evict).Coherent
              dev rbs P := Coherent.evict (c := { c with generation := c.generation + 1 }) hc
          simp only [List.lookup_cons] at hk
          by_cases hkb : k = block
          · have hkb' : (k == block) = true := by simpa using hkb
            simp only [hkb', Option.some.injEq] at hk
            rw [← hk, hkb]
            exact ⟨hP, hr⟩
          · have hkb' : (k == block) = false := by simpa using hkb
            simp only [hkb'] at hk
            exact hevict k e hk

/-- Another device that holds the same in every block with `P`. -/
theorem Coherent.congr {dev' : Device} (h : c.Coherent dev rbs P)
    (hdev : ∀ k, P k → dev'.readReserved rbs k = dev.readReserved rbs k) :
    c.Coherent dev' rbs P := by
  intro k e hk
  obtain ⟨hP, hread⟩ := h k e hk
  exact ⟨hP, (hdev k hP).trans hread⟩

end BlockCache

end Pfs3
