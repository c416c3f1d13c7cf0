import Pfs3.Store.DeviceWrites

/-!
# Sector writes on a device that may fail

A computation that attempts a list of sector writes either carries out all of them or stops at
the first write its fault plan refuses, with the writes before it done.  Computations that
attempt lists of writes compose, and whether they reach the writes at all is read off their run
on the same device without faults.
-/

namespace Pfs3

open ByteList Stop

namespace Device

/-- The device without its fault plan. -/
def unfailing (d : Device) : Device := { d with faults := fun _ => false }

/-- The device after the given sector writes. -/
def puts (d : Device) (ws : List (ℕ × Sector)) : Device := ws.foldl (fun d p => d.put p.1 p.2) d

/-- The device after the given sector writes and a refused one. -/
def stopped (d : Device) (ws : List (ℕ × Sector)) : Device :=
  { d.puts ws with attempts := d.attempts + ws.length + 1 }

/-- None of the next `n` writes is refused. -/
def Clear (d : Device) (n : ℕ) : Prop := ∀ i < n, d.faults (d.attempts + i) = false

/-- `m` attempts the sector writes `ws` on `d` and nothing else. -/
def Attempts (d : Device) (ws : List (ℕ × Sector)) (m : EStateM Fault Device Unit) : Prop :=
  (d.Clear ws.length ∧ m d = .ok () (d.puts ws)) ∨
  ∃ n < ws.length, d.Clear n ∧ d.faults (d.attempts + n) = true ∧
    m d = .error (.err .io) (d.stopped (ws.take n))

variable {d : Device} {ws ws' : List (ℕ × Sector)} {m m' : EStateM Fault Device Unit}

@[simp] theorem puts_nil (d : Device) : d.puts [] = d := rfl

theorem puts_cons (d : Device) (p : ℕ × Sector) (ws : List (ℕ × Sector)) :
    d.puts (p :: ws) = (d.put p.1 p.2).puts ws := rfl

theorem puts_append (d : Device) (ws ws' : List (ℕ × Sector)) :
    d.puts (ws ++ ws') = (d.puts ws).puts ws' := List.foldl_append ..

theorem puts_fields (d : Device) (ws : List (ℕ × Sector)) :
    (d.puts ws).faults = d.faults ∧ (d.puts ws).attempts = d.attempts + ws.length ∧
    (d.puts ws).total = d.total ∧ (d.puts ws).writable = d.writable := by
  induction ws generalizing d with
  | nil => exact ⟨rfl, rfl, rfl, rfl⟩
  | cons p ws ih =>
      obtain ⟨h₁, h₂, h₃, h₄⟩ := ih (d.put p.1 p.2)
      have hatt : (d.put p.1 p.2).attempts = d.attempts + 1 := rfl
      refine ⟨h₁, ?_, h₃, h₄⟩
      rw [puts_cons, h₂, hatt, List.length_cons]
      omega

theorem stopped_append (d : Device) (ws ws' : List (ℕ × Sector)) :
    d.stopped (ws ++ ws') = (d.puts ws).stopped ws' := by
  have hcount : d.attempts + (ws ++ ws').length + 1 =
      (d.puts ws).attempts + ws'.length + 1 := by
    rw [List.length_append, (d.puts_fields ws).2.1]
    omega
  unfold stopped
  rw [puts_append, hcount]

theorem unfailing_puts (d : Device) (ws : List (ℕ × Sector)) :
    (d.puts ws).unfailing = d.unfailing.puts ws := by
  induction ws generalizing d with
  | nil => rfl
  | cons p ws ih => exact ih (d.put p.1 p.2)

theorem attempts_nil (d : Device) : Attempts d [] (pure ()) :=
  Or.inl ⟨fun i hi => absurd hi (Nat.not_lt_zero i), rfl⟩

/-- Attempting some writes and then, on the device they leave, some more. -/
theorem Attempts.seq (h : Attempts d ws m) (h' : Attempts (d.puts ws) ws' m') :
    Attempts d (ws ++ ws') (do m; m') := by
  obtain ⟨hfaults, hatt, -, -⟩ := d.puts_fields ws
  rcases h with ⟨hclear, hrun⟩ | ⟨n, hn, hclear, hfault, hrun⟩
  · have hseq : (do m; m' : EStateM Fault Device Unit) d = m' (d.puts ws) := bind_of_ok hrun
    have hclear' : ∀ {k}, (d.puts ws).Clear k → d.Clear (ws.length + k) := by
      intro k hk i hi
      by_cases hlt : i < ws.length
      · exact hclear i hlt
      · have hi' := hk (i - ws.length) (by omega)
        rw [hfaults, hatt] at hi'
        rwa [show d.attempts + ws.length + (i - ws.length) = d.attempts + i by omega] at hi'
    rcases h' with ⟨hc, hrun'⟩ | ⟨n, hn, hc, hfault, hrun'⟩
    · refine Or.inl ⟨?_, ?_⟩
      · rw [List.length_append]
        exact hclear' hc
      · rw [hseq, hrun', puts_append]
    · refine Or.inr ⟨ws.length + n, by rw [List.length_append]; omega, hclear' hc, ?_, ?_⟩
      · rw [hfaults, hatt] at hfault
        rwa [show d.attempts + (ws.length + n) = d.attempts + ws.length + n by omega]
      · have htake : (ws ++ ws').take (ws.length + n) = ws ++ ws'.take n := List.take_length_add_append n
        rw [hseq, hrun', htake, stopped_append]
  · refine Or.inr ⟨n, by rw [List.length_append]; omega, hclear, hfault, ?_⟩
    rw [List.take_append_of_le_length (by omega)]
    exact bind_of_error hrun

/-- One sector write is what it attempts. -/
theorem attempts_writeSector (d : Device) (b : ℕ) (s : Sector) :
    Attempts d [(b, s)] (writeSector b s) := by
  unfold Attempts writeSector
  cases hf : d.faults d.attempts with
  | false =>
      refine Or.inl ⟨?_, by simp [puts, put]⟩
      intro i hi
      have hi0 : i = 0 := by simpa using hi
      rw [hi0]
      exact hf
  | true =>
      refine Or.inr ⟨0, by simp, ?_, hf, by simp [stopped]⟩
      exact fun i hi => absurd hi (Nat.not_lt_zero i)

/-- The sectors of a multi-sector write with their block numbers. -/
def numbered (block : ℕ) : List Sector → List (ℕ × Sector)
  | [] => []
  | s :: rest => (block, s) :: numbered (block + 1) rest

theorem attempts_writeSectors (ss : List Sector) : ∀ (d : Device) (block : ℕ),
    Attempts d (numbered block ss) (writeSectors block ss) := by
  induction ss with
  | nil => exact fun d _ => attempts_nil d
  | cons s ss ih =>
      intro d block
      exact (attempts_writeSector d block s).seq (ih (d.put block s) (block + 1))

theorem length_numbered (ss : List Sector) : ∀ block, (numbered block ss).length = ss.length := by
  induction ss with
  | nil => exact fun _ => rfl
  | cons s ss ih => exact fun block => congrArg (· + 1) (ih (block + 1))

theorem take_numbered (ss : List Sector) : ∀ block n,
    (numbered block ss).take n = numbered block (ss.take n) := by
  induction ss with
  | nil =>
      intro block n
      simp [numbered]
  | cons s ss ih =>
      intro block n
      cases n with
      | zero => simp [numbered]
      | succ n => simp [numbered, ih]

/-- What a multi-sector write leaves in each sector. -/
theorem sectors_puts_numbered (ss : List Sector) : ∀ (d : Device) (block b : ℕ),
    (d.puts (numbered block ss)).sectors b =
      if block ≤ b then (ss[b - block]?).getD (d.sectors b) else d.sectors b := by
  induction ss with
  | nil =>
      intro d block b
      simp [numbered]
  | cons s ss ih =>
      intro d block b
      rw [numbered, puts_cons, ih]
      by_cases hb : b = block
      · subst hb
        have hself : (d.put b s).sectors b = s := Function.update_self _ _ _
        rw [if_neg (by omega), if_pos le_rfl, Nat.sub_self, hself]
        rfl
      · have hother : (d.put block s).sectors b = d.sectors b := Function.update_of_ne hb _ _
        rw [hother]
        by_cases hlt : block + 1 ≤ b
        · have hstep : b - block = (b - (block + 1)) + 1 := by omega
          rw [if_pos hlt, if_pos (by omega), hstep, List.getElem?_cons_succ]
        · rw [if_neg hlt, if_neg (by omega)]

/-- The sectors `write_blocks` writes from `data`. -/
def sectorsOf (count : ℕ) (data : Bytes) : List Sector :=
  (List.range count).map fun i => Sector.ofBytes (data.drop (i * SECTOR_SIZE))

/-- What `write_blocks` has checked when it reports success. -/
theorem passes_of_writeBlocks {block count : ℕ} {data : Bytes} {e : Device}
    (h : writeBlocks block count data d = .ok () e) :
    d.writable = true ∧ block + count ≤ d.total ∧ count * SECTOR_SIZE ≤ data.length := by
  unfold writeBlocks at h
  rw [bind_of_ok (rfl : (get : EStateM Fault Device Device) _ = .ok _ _)] at h
  by_cases h₁ : (!d.writable) = true
  · rw [if_pos h₁] at h
    cases h
  · rw [if_neg h₁] at h
    by_cases h₂ : d.total < block + count
    · rw [if_pos h₂] at h
      cases h
    · rw [if_neg h₂] at h
      by_cases h₃ : data.length < count * SECTOR_SIZE
      · rw [if_pos h₃] at h
        cases h
      · exact ⟨by simpa using h₁, by omega, by omega⟩

/-- A multi-sector write that passes its checks attempts its sectors. -/
theorem attempts_writeBlocks {block count : ℕ} {data : Bytes} (hw : d.writable = true)
    (ht : block + count ≤ d.total) (hl : count * SECTOR_SIZE ≤ data.length) :
    Attempts d (numbered block (sectorsOf count data)) (writeBlocks block count data) := by
  have hpass : writeBlocks block count data d = writeSectors block (sectorsOf count data) d := by
    unfold writeBlocks
    rw [bind_of_ok (rfl : (get : EStateM Fault Device Device) _ = .ok _ _), hw]
    simp only [Bool.not_true, Bool.false_eq_true, if_false]
    rw [if_neg (by omega), if_neg (by omega)]
    rfl
  have hatt := attempts_writeSectors (sectorsOf count data) d block
  unfold Attempts at hatt ⊢
  rwa [hpass]

/-- Without a refused write, all the writes attempted are done. -/
theorem Attempts.ok (h : Attempts d ws m) (hclear : ∀ i, d.attempts ≤ i → d.faults i = false) :
    m d = .ok () (d.puts ws) := by
  rcases h with ⟨-, hrun⟩ | ⟨n, -, -, hfault, -⟩
  · exact hrun
  · rw [hclear _ (Nat.le_add_right _ _)] at hfault
    cases hfault

/-- The sector writes of a reserved block. -/
def reservedWrites (rescluster blk : ℕ) (data : Bytes) : List (ℕ × Sector) :=
  (List.range rescluster).map fun i => (blk + i, Sector.ofBytes (data.drop (i * SECTOR_SIZE)))

theorem attempts_writeReservedBlocks {blk rescluster : ℕ} {data : Bytes} {e : Device}
    (h : writeReservedBlocks blk data rescluster d.unfailing = .ok () e) :
    Attempts d (reservedWrites rescluster blk data) (writeReservedBlocks blk data rescluster) ∧
    e = (d.puts (reservedWrites rescluster blk data)).unfailing := by
  unfold writeReservedBlocks at h ⊢
  unfold reservedWrites
  generalize List.range rescluster = l at h ⊢
  induction l generalizing d with
  | nil =>
      refine ⟨attempts_nil d, ?_⟩
      injection h with _ h
      exact h.symm
  | cons i l ih =>
      obtain ⟨_, e', hfirst, hrest⟩ := of_bind_eq_ok h
      have hone : numbered (blk + i) (sectorsOf 1 (Sector.ofBytes (data.drop (i * SECTOR_SIZE))).val)
          = [(blk + i, Sector.ofBytes (data.drop (i * SECTOR_SIZE)))] := by
        simp [sectorsOf, numbered, Sector.ofBytes_val]
      obtain ⟨hw, ht, hl⟩ := passes_of_writeBlocks hfirst
      have hatt := attempts_writeBlocks (d := d) hw ht hl
      have hfree := (attempts_writeBlocks (d := d.unfailing) hw ht hl).ok fun _ _ => rfl
      rw [hone] at hatt hfree
      have he : e' = (d.puts [(blk + i, Sector.ofBytes (data.drop (i * SECTOR_SIZE)))]).unfailing := by
        rw [unfailing_puts]
        have hsame := hfirst.symm.trans hfree
        injection hsame with _ hsame
      subst he
      obtain ⟨hatt', he'⟩ := ih hrest
      exact ⟨hatt.seq hatt', he'⟩

end Device

end Pfs3
