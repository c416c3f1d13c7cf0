import Pfs3.Tree.Free

/-!
# Overwriting

Overwriting a file cuts its chain or appends to it; the chain of no other object changes.
-/

namespace Pfs3

open ByteList Stop

namespace Store

variable {S S' : Store} {T : Owners} {held : List ℕ}

/-- The order of the held blocks does not matter. -/
theorem Owned.perm (h : S.Owned T held) {held' : List ℕ} (hp : held.Perm held') :
    S.Owned T held' :=
  { h with
    held_taken := fun b hb => h.held_taken b (hp.mem_iff.mpr hb)
    held_free := fun b hb => h.held_free b (hp.mem_iff.mpr hb)
    held_nodup := hp.nodup_iff.mp h.held_nodup }

/-- The anode slots outside `nrs`, and everything that is neither bitmap nor anode, stay. -/
structure SameBut (S S' : Store) (nrs : List ℕ) : Prop where
  geo : S'.geo = S.geo
  disk : S'.disk = S.disk
  dir : S'.live.dir = S.live.dir
  data : S'.data = S.data
  anode : ∀ nr ∉ nrs, S'.live.getAnode nr = S.live.getAnode nr

namespace SameBut

theorem refl (S : Store) (nrs : List ℕ) : SameBut S S nrs := ⟨rfl, rfl, rfl, rfl, fun _ _ => rfl⟩

theorem trans {S'' : Store} {l l' nrs : List ℕ} (h : SameBut S S' l) (h' : SameBut S' S'' l')
    (hl : ∀ x ∈ l, x ∈ nrs) (hl' : ∀ x ∈ l', x ∈ nrs) : SameBut S S'' nrs :=
  ⟨h'.geo.trans h.geo, h'.disk.trans h.disk, h'.dir.trans h.dir, h'.data.trans h.data,
    fun nr hnr => (h'.anode nr fun hm => hnr (hl' nr hm)).trans (h.anode nr fun hm => hnr (hl nr hm))⟩

theorem of_table (h : SameTable S S') (nrs : List ℕ) : SameBut S S' nrs :=
  ⟨h.geo, h.disk, h.dir, h.data, fun nr _ => h.getAnode nr⟩

theorem of_setSlot (nr : ℕ) (s : Slot) : SameBut S (setSlot nr s S) [nr] :=
  ⟨rfl, rfl, rfl, rfl, fun _ hj => getAnode_setSlot_ne fun heq => hj (heq ▸ List.mem_singleton_self nr)⟩

end SameBut

/-- The anodes belong to nobody in `T`. -/
def Loose (T : Owners) (l : List Anode) : Prop :=
  ∀ a ∈ l, ∀ {k x c}, T k = some x → c ∈ x.chain → c.nr ≠ a.nr

theorem Loose.tail {a : Anode} {l : List Anode} (h : Loose T (a :: l)) : Loose T l :=
  fun b hb => h b (List.mem_cons_of_mem a hb)

theorem chainBlocks_cons (a : Anode) (l : List Anode) : AnodeReader.chainBlocks (a :: l) =
    List.range' a.blocknr a.clustersize ++ AnodeReader.chainBlocks l := rfl

theorem post_freeAndClear (l : List Anode) : ∀ {S : Store},
    S.Owned T (AnodeReader.chainBlocks l ++ held) →
    (∀ b ∈ AnodeReader.chainBlocks l, S.geo.dataStart ≤ b) →
    (∀ a ∈ l, S.disk.getAnode a.nr = .ok a) → Loose T l →
    Post (freeAndClearAnodes l) (fun _ S' => S'.Owned T held ∧ SameBut S S' (l.map Anode.nr))
      anyError S := by
  induction l with
  | nil => exact fun h _ _ _ => post_pure ⟨h, .refl _ _⟩
  | cons a l ih =>
      intro S h hle hget hloose
      rw [chainBlocks_cons, List.append_assoc] at h
      rw [chainBlocks_cons] at hle
      have hone : Post (do
          freeExtent a
          clearSingleAnode a.nr) (fun _ S' => S'.Owned T (AnodeReader.chainBlocks l ++ held) ∧
          SameBut S S' [a.nr]) anyError S := by
        refine (post_freeExtent h fun b hb => hle b (List.mem_append_left _ hb)).seq ?_
        rintro _ S₁ ⟨h₁, ht₁⟩
        have hget₁ : S₁.disk.getAnode a.nr = .ok a := by
          rw [ht₁.disk]
          exact hget a List.mem_cons_self
        refine (post_writeAnodeFields hget₁ 0 0 0).mono ?_ fun _ _ h => h
        rintro _ _ rfl
        exact ⟨h₁.setSlot _ (hloose a List.mem_cons_self),
          (SameBut.of_table ht₁ []).trans (.of_setSlot _ _) (fun _ hx => absurd hx List.not_mem_nil)
            fun _ hx => hx⟩
      refine hone.seq ?_
      rintro _ S₁ ⟨h₁, hs₁⟩
      refine (ih h₁ (fun b hb => ?_) (fun c hc => ?_) hloose.tail).mono ?_ fun _ _ h => h
      · rw [hs₁.geo]
        exact hle b (List.mem_append_right _ hb)
      · rw [hs₁.disk]
        exact hget c (List.mem_cons_of_mem a hc)
      · rintro _ S₂ ⟨h₂, hs₂⟩
        refine ⟨h₂, hs₁.trans hs₂ (fun x hx => ?_) fun x hx => List.mem_cons_of_mem _ hx⟩
        rcases List.mem_singleton.mp hx with rfl
        exact List.mem_cons_self

/-- The chain cut to its first `r` blocks. -/
def cut : (r : ℕ) → List Anode → List Anode
  | _, [] => []
  | r, a :: rest =>
      if r ≤ a.clustersize then [⟨r, a.blocknr, ANODE_EOF, a.nr⟩]
      else a :: cut (r - a.clustersize) rest

theorem range'_split (a : ℕ) {k n : ℕ} (h : k ≤ n) :
    List.range' a n = List.range' a k ++ List.range' (a + k) (n - k) := by
  have hn : n = k + (n - k) := by omega
  conv_lhs => rw [hn, ← List.range'_append_1]

theorem length_range'_le {a n r : ℕ} (h : r ≤ n) : (List.range' a n).take r = List.range' a r := by
  rw [range'_split a h, List.take_left' (List.length_range')]

theorem chainBlocks_cut : ∀ (l : List Anode) (r : ℕ),
    AnodeReader.chainBlocks (cut r l) = (AnodeReader.chainBlocks l).take r
  | [], r => by
      rw [cut]
      exact (List.take_nil).symm
  | a :: rest, r => by
      rw [cut, chainBlocks_cons, List.take_append, List.length_range']
      split
      · rename_i hle
        have hzero : r - a.clustersize = 0 := by omega
        rw [length_range'_le hle, hzero, List.take_zero, List.append_nil, chainBlocks_cons]
        exact List.append_nil _
      · rename_i hgt
        have hall : (List.range' a.blocknr a.clustersize).take r =
            List.range' a.blocknr a.clustersize :=
          List.take_of_length_le (by rw [List.length_range']; omega)
        rw [chainBlocks_cons, chainBlocks_cut rest, hall]

theorem nr_mem_of_mem_cut {x : Anode} : ∀ {l : List Anode} {r : ℕ}, x ∈ cut r l →
    x.nr ∈ l.map Anode.nr
  | [], _, h => absurd h List.not_mem_nil
  | a :: rest, r, h => by
      rw [cut] at h
      split at h
      · rcases List.mem_singleton.mp h with rfl
        exact List.mem_cons_self
      · rcases List.mem_cons.mp h with rfl | h
        · exact List.mem_cons_self
        · exact List.mem_cons_of_mem _ (nr_mem_of_mem_cut h)

theorem nodup_cut : ∀ {l : List Anode} {r : ℕ}, (l.map Anode.nr).Nodup →
    ((cut r l).map Anode.nr).Nodup
  | [], _, _ => List.nodup_nil
  | a :: rest, r, h => by
      obtain ⟨hnot, hrest⟩ := List.nodup_cons.mp h
      rw [cut]
      split
      · exact List.nodup_singleton _
      · refine List.nodup_cons.mpr ⟨fun hm => ?_, nodup_cut hrest⟩
        obtain ⟨x, hx, hxn⟩ := List.mem_map.mp hm
        exact hnot (hxn ▸ nr_mem_of_mem_cut hx)

theorem used_cut {x : Anode} : ∀ {l : List Anode} {r : ℕ}, 0 < r → (∀ a ∈ l, a.clustersize ≠ 0) →
    x ∈ cut r l → x.clustersize ≠ 0
  | [], _, _, _, h => absurd h List.not_mem_nil
  | a :: rest, r, hr, hl, h => by
      rw [cut] at h
      split at h
      · rcases List.mem_singleton.mp h with rfl
        exact Nat.ne_of_gt hr
      · rcases List.mem_cons.mp h with rfl | h
        · exact hl x List.mem_cons_self
        · exact used_cut (by omega) (fun c hc => hl c (List.mem_cons_of_mem a hc)) h

/-- What the loop of `truncate_anode_chain` leaves of a chain with more than `r` blocks. -/
theorem post_truncateLoop (l : List Anode) : ∀ {held : List ℕ} {S : Store} {r nr : ℕ},
    S.Owned T (AnodeReader.chainBlocks l ++ held) →
    (∀ b ∈ AnodeReader.chainBlocks l, S.geo.dataStart ≤ b) →
    0 < r → r ≤ (l.map Anode.clustersize).sum →
    (∀ a ∈ l, S.disk.getAnode a.nr = .ok a) → S.live.Linked nr l → (l.map Anode.nr).Nodup →
    Loose T l →
    Post (truncateLoop r l) (fun _ S' => S'.Owned T ((AnodeReader.chainBlocks l).take r ++ held) ∧
      S'.live.Linked nr (cut r l) ∧ SameBut S S' (l.map Anode.nr)) anyError S := by
  induction l with
  | nil =>
      intro held S r nr _ _ hr hsum
      simp only [List.map_nil, List.sum_nil] at hsum
      omega
  | cons a l ih =>
      intro held S r nr h hle hr hsum hget hlinked hnodup hloose
      obtain ⟨hnot, hnodup'⟩ := List.nodup_cons.mp hnodup
      have hnr := hlinked.head
      have hgeta := hget a List.mem_cons_self
      have hlive := hlinked.mem List.mem_cons_self
      obtain ⟨hcs, hbn, -⟩ := anode_lt hlive
      have hu : U32 = 4294967296 := rfl
      have hgetl : ∀ c ∈ l, S.disk.getAnode c.nr = .ok c := fun c hc =>
        hget c (List.mem_cons_of_mem a hc)
      rw [chainBlocks_cons] at h hle
      -- the rest of the chain goes once the anode ends the chain
      have hend : ∀ {S₁ : Store} (k : ℕ), k = r → k ≤ a.clustersize →
          S₁.Owned T (List.range' a.blocknr k ++ (AnodeReader.chainBlocks l ++ held)) →
          SameTable S S₁ →
          Post (do
            writeAnodeFields a.nr k a.blocknr ANODE_EOF
            freeAndClearAnodes l) (fun _ S' =>
            S'.Owned T ((AnodeReader.chainBlocks (a :: l)).take r ++ held) ∧
            S'.live.Linked nr (cut r (a :: l)) ∧ SameBut S S' ((a :: l).map Anode.nr)) anyError S₁ := by
        intro S₁ k hk hkle h₁ ht
        subst hk
        have hget₁ : S₁.disk.getAnode a.nr = .ok a := by rw [ht.disk]; exact hgeta
        refine (post_writeAnodeFields hget₁ _ _ _).seq ?_
        rintro _ _ rfl
        have h₂ := (h₁.setSlot (.ofNat k a.blocknr ANODE_EOF)
          (hloose a List.mem_cons_self)).perm (List.perm_append_comm_assoc _ _ _)
        refine (post_freeAndClear l h₂ (fun b hb => ?_) (fun c hc => ?_) hloose.tail).mono ?_
          fun _ _ h => h
        · show S₁.geo.dataStart ≤ b
          rw [ht.geo]
          exact hle b (List.mem_append_right _ hb)
        · show S₁.disk.getAnode c.nr = _
          rw [ht.disk]
          exact hgetl c hc
        rintro _ S₃ ⟨h₃, hs₃⟩
        have htake : (AnodeReader.chainBlocks (a :: l)).take k = List.range' a.blocknr k := by
          have hzero : k - a.clustersize = 0 := by omega
          rw [chainBlocks_cons, List.take_append, List.length_range', hzero, List.take_zero,
            List.append_nil, length_range'_le hkle]
        have hlive₁ : S₁.live.getAnode a.nr = .ok a := by rw [ht.getAnode]; exact hlive
        have hlast : S₃.live.getAnode a.nr = .ok ⟨k, a.blocknr, ANODE_EOF, a.nr⟩ := by
          rw [hs₃.anode a.nr hnot]
          exact getAnode_setSlot_live hlive₁ (by omega) hbn (by decide)
        refine ⟨htake ▸ h₃, ?_, ((SameBut.of_table ht []).trans (.of_setSlot a.nr _)
          (fun _ hx => absurd hx List.not_mem_nil) fun _ hx => hx).trans hs₃ (fun x hx => ?_)
          fun x hx => List.mem_cons_of_mem _ hx⟩
        · rw [cut, if_pos hkle]
          exact ⟨hlinked.1, hnr ▸ hlast, rfl⟩
        · rcases List.mem_singleton.mp hx with rfl
          exact List.mem_cons_self
      unfold truncateLoop
      rw [if_neg (by omega)]
      by_cases hlt : r < a.clustersize
      · rw [if_pos hlt]
        have hsplit := range'_split a.blocknr (Nat.le_of_lt hlt)
        have hperm : (List.range' a.blocknr a.clustersize ++ AnodeReader.chainBlocks l ++ held).Perm
            (List.range' (a.blocknr + r) (a.clustersize - r) ++
              (List.range' a.blocknr r ++ (AnodeReader.chainBlocks l ++ held))) := by
          rw [hsplit, List.append_assoc, List.append_assoc]
          exact List.perm_append_comm_assoc _ _ _
        have hmap : (List.range' r (a.clustersize - r)).map (a.blocknr + ·) =
            List.range' (a.blocknr + r) (a.clustersize - r) := List.map_add_range' ..
        have h₁ := h.perm hperm
        rw [← hmap] at h₁
        refine (post_freeRun _ h₁ fun i hi => ?_).seq ?_
        · refine hle _ (List.mem_append_left _ ?_)
          rw [hsplit, ← hmap]
          exact List.mem_append_right _ (List.mem_map_of_mem hi)
        · rintro _ S₁ ⟨h₂, ht₂⟩
          exact hend r rfl (Nat.le_of_lt hlt) h₂ ht₂
      · rw [if_neg hlt]
        by_cases heq : r - a.clustersize = 0
        · rw [if_pos heq]
          have hcr : a.clustersize = r := by omega
          rw [List.append_assoc] at h
          exact hend a.clustersize hcr (le_refl _) h (.refl S)
        · rw [if_neg heq]
          have hsum' : r - a.clustersize ≤ (l.map Anode.clustersize).sum := by
            rw [List.map_cons, List.sum_cons] at hsum
            omega
          have h₁ := @Owned.perm _ _ _ h (AnodeReader.chainBlocks l ++
            (List.range' a.blocknr a.clustersize ++ held)) (by
              rw [List.append_assoc]
              exact List.perm_append_comm_assoc _ _ _)
          refine (ih h₁ (fun b hb => hle b (List.mem_append_right _ hb)) (by omega) hsum' hgetl
            hlinked.2.2 hnodup' hloose.tail).mono ?_ fun _ _ h => h
          rintro _ S₂ ⟨h₂, hl₂, hs₂⟩
          have htake : (AnodeReader.chainBlocks (a :: l)).take r =
              List.range' a.blocknr a.clustersize ++
                (AnodeReader.chainBlocks l).take (r - a.clustersize) := by
            have hall : (List.range' a.blocknr a.clustersize).take r =
                List.range' a.blocknr a.clustersize :=
              List.take_of_length_le (by rw [List.length_range']; omega)
            rw [chainBlocks_cons, List.take_append, List.length_range', hall]
          refine ⟨?_, ?_, (SameBut.refl S []).trans hs₂ (fun _ hx => absurd hx List.not_mem_nil)
            fun x hx => List.mem_cons_of_mem _ hx⟩
          · rw [htake, List.append_assoc]
            exact h₂.perm (List.perm_append_comm_assoc _ _ _)
          · rw [cut, if_neg (by omega)]
            refine ⟨hlinked.1, ?_, hl₂⟩
            rw [← hnr, hs₂.anode a.nr hnot]
            exact hlive

end Store

end Pfs3
