import Mathlib.Data.List.Nodup
import Pfs3.Tree.Owned

/-!
# Allocation

The calls that take blocks and anodes out of the free pool leave everything that is in use
where it is.
-/

namespace Pfs3

open ByteList Stop

namespace Store

/-- The promise says nothing about a call that fails. -/
def anyError : Fault → Store → Prop := fun _ _ => True

variable {S : Store} {α β : Type} {Q : β → Store → Prop}

theorem post_lift {e : Except Fault α} {k : α → StoreM β}
    (h : ∀ a, e = .ok a → Post (k a) Q anyError S) :
    Post ((liftM e : StoreM α) >>= k) Q anyError S := by
  cases e with
  | ok a => exact h a rfl
  | error f => exact trivial

theorem post_get {k : Store → StoreM β} (h : Post (k S) Q anyError S) :
    Post (get >>= k) Q anyError S := h

theorem post_set {k : PUnit → StoreM β} {S' : Store} (h : Post (k ⟨⟩) Q anyError S') :
    Post (set S' >>= k) Q anyError S := h

theorem post_modify {k : PUnit → StoreM β} {f : Store → Store}
    (h : Post (k ⟨⟩) Q anyError (f S)) : Post (modify f >>= k) Q anyError S := h

theorem post_fail {e : Error} : Post (fail e : StoreM β) Q anyError S := trivial

theorem post_onDisk {f : Meta → Reader α} (hstuck : f S.disk ≠ .error .stuck) :
    Post (onDisk f) (fun a S' => S' = S ∧ f S.disk = .ok a) anyError S := by
  have hrun : onDisk f S = (liftM (f S.disk) : StoreM α) S := rfl
  unfold Post
  rw [hrun]
  cases hf : f S.disk with
  | ok a => exact ⟨rfl, rfl⟩
  | error e =>
      cases e with
      | raise e => exact trivial
      | stuck => exact absurd hf hstuck

theorem post_getChain (nr : ℕ) :
    Post (getChain nr) (fun l S' => S' = S ∧ S.disk.Linked nr l ∧ (l.map Anode.nr).Nodup)
      anyError S :=
  (post_onDisk (Meta.getChainLoop_not_stuck _ _ _)).mono
    (fun _ _ h => ⟨h.1, Meta.linked_of_getChain h.2⟩) fun _ _ h => h

theorem post_nextDatestamp :
    Post nextDatestamp (fun ds S' => S' = { S with datestamp := S.datestamp + 1 } ∧
      ds = S.datestamp + 1) anyError S := by
  refine post_lift (e := addU32 S.datestamp 1) fun ds hds => ?_
  unfold addU32 at hds
  split at hds
  · cases hds
    exact ⟨rfl, rfl⟩
  · cases hds

/-! ## Reserved blocks -/

/-- The store after block `k` of the reserved area is taken. -/
def takeReserved (k : ℕ) (S : Store) : Store :=
  { S with resFree := Function.update S.resFree k false, reservedFree := S.reservedFree - 1 }

theorem post_allocReservedBlock :
    Post allocReservedBlock (fun b S' => ∃ k, b = Geometry.blockAt k ∧ S.resFree k = true ∧
      S' = takeReserved k S) anyError S := by
  unfold allocReservedBlock
  refine post_get ?_
  cases hk : (List.range S.geo.numreserved).find? S.resFree with
  | none => exact post_fail
  | some k =>
      refine post_lift (e := subU32 S.reservedFree 1) fun n hn => ?_
      refine ⟨k, rfl, List.find?_some hk, ?_⟩
      unfold subU32 at hn
      split at hn
      · cases hn
        rfl
      · cases hn

theorem Taken.dynamic {b : ℕ} (h : S.Taken b) (hlt : b < S.geo.dataStart) :
    S.geo.IsDynamic b ∧ (∀ s, S.live.index s ≠ b) ∧
      ∀ k, b = Geometry.blockAt k → S.resFree k = false := by
  rcases h with h | h
  · exact h
  · omega

theorem Taken.lt {b : ℕ} (h : S.geo.IsDynamic b) : b < S.geo.dataStart := by
  have := h.add_two_le
  omega

/-- A block that was free is not taken. -/
theorem not_taken_of_free (h : S.Sane) {k : ℕ} (hk : S.resFree k = true) :
    ¬ S.Taken (Geometry.blockAt k) := by
  obtain ⟨h₁, h₂, -⟩ := h.reserve k hk
  have hdyn : S.geo.IsDynamic (Geometry.blockAt k) := ⟨k, h₁, h₂, rfl⟩
  intro ht
  have hfalse := (ht.dynamic (Taken.lt hdyn)).2.2 k rfl
  rw [hk] at hfalse
  cases hfalse

theorem stays_takeReserved (k : ℕ) (X : ℕ → Prop) : S.Stays (takeReserved k S) X where
  geo := rfl
  disk := rfl
  taken b hb := by
    rcases hb with ⟨h₁, h₂, h₃⟩ | hb
    · refine Or.inl ⟨h₁, h₂, fun j hj => ?_⟩
      by_cases hjk : j = k
      · rw [hjk]
        exact Function.update_self _ _ _
      · exact (Function.update_of_ne hjk _ _).trans (h₃ j hj)
    · exact Or.inr hb
  content _ _ h := h
  dirs _ _ _ := rfl
  anode _ _ h _ := h

theorem takeReserved_free {k j : ℕ} (h : (takeReserved k S).resFree j = true) :
    j ≠ k ∧ S.resFree j = true := by
  by_cases hjk : j = k
  · subst hjk
    have hself : (takeReserved j S).resFree j = false := Function.update_self _ _ _
    rw [hself] at h
    cases h
  · exact ⟨hjk, (Function.update_of_ne hjk _ _).symm.trans h⟩

/-- Changing one point of a predicate changes the count by at most one. -/
theorem length_filter_false {f : ℕ → Bool} {n k : ℕ} (hk : k < n) (hf : f k = true) :
    ((List.range n).filter (Function.update f k false)).length + 1 =
      ((List.range n).filter f).length := by
  have hsplit : (List.range n).filter (Function.update f k false) =
      ((List.range n).filter f).filter (· != k) := by
    rw [List.filter_filter]
    apply List.filter_congr
    intro j _
    by_cases hj : j = k
    · subst hj
      rw [Function.update_self]
      simp
    · rw [Function.update_of_ne hj]
      simp [hj]
  have hmem : k ∈ (List.range n).filter f := List.mem_filter.mpr ⟨List.mem_range.mpr hk, hf⟩
  have hnodup : ((List.range n).filter f).Nodup := List.nodup_range.filter _
  have hpos := List.length_pos_of_mem hmem
  rw [hsplit, ← hnodup.erase_eq_filter, List.length_erase_of_mem hmem]
  omega

theorem Sane.takeReserved (h : S.Sane) {k : ℕ} (hk : S.resFree k = true) :
    (takeReserved k S).Sane where
  blocks := h.blocks
  bound := h.bound
  reserved := by
    have hcount := length_filter_false (h.reserve k hk).2.1 hk
    have hres := h.reserved
    show S.reservedFree - 1 = ((List.range S.geo.numreserved).filter
      (Function.update S.resFree k false)).length
    unfold freeReserved at hres
    omega
  reserve j hj := h.reserve j (takeReserved_free hj).2
  index s hs := by
    obtain ⟨h₁, h₂, h₃⟩ := h.index s hs
    refine ⟨h₁, h₂, fun j hj => ?_⟩
    by_cases hjk : j = k
    · rw [hjk]
      exact Function.update_self _ _ _
    · exact (Function.update_of_ne hjk _ _).trans (h₃ j hj)
  disk := h.disk

/-- The block just taken is taken, and may become a directory or anode block. -/
theorem taken_takeReserved (h : S.Sane) {k : ℕ} (hk : S.resFree k = true) :
    (takeReserved k S).Taken (Geometry.blockAt k) ∧ (takeReserved k S).Usable (Geometry.blockAt k) := by
  obtain ⟨h₁, h₂, h₃⟩ := h.reserve k hk
  have hdyn : S.geo.IsDynamic (Geometry.blockAt k) := ⟨k, h₁, h₂, rfl⟩
  refine ⟨Or.inl ⟨hdyn, h₃, fun j hj => ?_⟩, hdyn, fun s _ => h₃ s⟩
  have hjk : j = k := by
    simp only [Geometry.blockAt] at hj
    omega
  rw [hjk]
  exact Function.update_self _ _ _

/-! ## Anode slots -/

theorem slot_setSlot (nr : ℕ) (s : Slot) (S : Store) : (setSlot nr s S).live.slot nr = s :=
  Function.update_self _ _ _

theorem slot_setSlot_ne {nr j : ℕ} {s : Slot} (h : j ≠ nr) :
    (setSlot nr s S).live.slot j = S.live.slot j := Function.update_of_ne h _ _

theorem getAnode_setSlot_ne {nr j : ℕ} {s : Slot} (h : j ≠ nr) :
    (setSlot nr s S).live.getAnode j = S.live.getAnode j := by
  unfold Meta.getAnode
  rw [slot_setSlot_ne h]
  rfl

theorem getAnode_setSlot {nr : ℕ} {s : Slot} (h₁ : S.live.index (nr / 65536) ≠ 0)
    (h₂ : nr % 65536 < SLOTS) : (setSlot nr s S).live.getAnode nr = .ok (s.anode nr) := by
  have hget := @Meta.getAnode_of (setSlot nr s S).live nr h₁ h₂
  rw [hget, slot_setSlot]

/-- Writing a slot in no use. -/
theorem stays_setSlot {nr : ℕ} (h : S.Unused nr) (s : Slot) (X : ℕ → Prop) :
    S.Stays (setSlot nr s S) X where
  geo := rfl
  disk := rfl
  taken _ hb := hb
  content _ _ h := h
  dirs _ _ _ := rfl
  anode j a ha hc := by
    have hne : j ≠ nr := by
      rintro rfl
      exact hc (h a ha)
    rw [getAnode_setSlot_ne hne]
    exact ha

theorem Sane.setSlot (h : S.Sane) (nr : ℕ) (s : Slot) : (setSlot nr s S).Sane :=
  ⟨h.reserve, h.index, h.disk, h.blocks, h.reserved, h.bound⟩

/-- The free slots that `alloc_anode` finds in the anode blocks `seqs`, up to the first
sequence number without a block. -/
def openIn (S : Store) : List ℕ → List ℕ
  | [] => []
  | seq :: rest =>
      if S.disk.index seq = 0 then []
      else (((List.range SLOTS).filter fun off =>
          decide (ANODE_USERFIRST ≤ seq * 65536 + off) && decide (S.live.slot (seq * 65536 + off)).IsFree).map
        fun off => seq * 65536 + off) ++ openIn S rest

/-- The free slots of the volume. -/
def openSlots (S : Store) : List ℕ := S.openIn (List.range 256)

/-- There is room for `k` more anodes: only the last one may need a new anode block. -/
def Room (S : Store) (k : ℕ) : Prop :=
  k ≤ S.openSlots.length ∨ (k ≤ S.openSlots.length + 1 ∧ ∀ s, S.live.index s = S.disk.index s)

/-- The slots that `alloc_anode` may take in the anode block of `seq`. -/
def slotsOf (S : Store) (seq : ℕ) : List ℕ :=
  (List.range SLOTS).filter fun off =>
    decide (ANODE_USERFIRST ≤ seq * 65536 + off) && decide (S.live.slot (seq * 65536 + off)).IsFree

theorem freeSlot_eq (seq : ℕ) : freeSlot S.live seq = (S.slotsOf seq).head? := by
  unfold freeSlot slotsOf
  rw [List.head?_filter]
  congr 1
  funext off
  simp [Bool.decide_and]

theorem openIn_cons (seq : ℕ) (rest : List ℕ) : S.openIn (seq :: rest) =
    if S.disk.index seq = 0 then [] else (S.slotsOf seq).map (fun off => seq * 65536 + off) ++
      S.openIn rest := rfl

/-- Taking a slot leaves the others. -/
theorem openIn_setSlot {nr : ℕ} {s : Slot} (hs : ¬ s.IsFree) (l : List ℕ) :
    (setSlot nr s S).openIn l = (S.openIn l).filter (· != nr) := by
  induction l with
  | nil => rfl
  | cons seq rest ih =>
      rw [openIn_cons, openIn_cons, ih]
      have hd : (setSlot nr s S).disk = S.disk := rfl
      rw [hd]
      split
      · rfl
      · rw [List.filter_append, List.filter_map, slotsOf, slotsOf, List.filter_filter]
        congr 2
        apply List.filter_congr
        intro off _
        by_cases hn : seq * 65536 + off = nr
        · rw [hn, slot_setSlot]
          simp [hs, hn]
        · rw [slot_setSlot_ne hn]
          simp [hn]

/-- The room for anodes depends on the anode table only. -/
theorem Room.congr {S' : Store} {k : ℕ} (h : S.Room k) (hdisk : S'.disk = S.disk)
    (hindex : S'.live.index = S.live.index) (hslot : S'.live.slot = S.live.slot) : S'.Room k := by
  have hopen : ∀ l, S'.openIn l = S.openIn l := by
    intro l
    induction l with
    | nil => rfl
    | cons seq rest ih => rw [openIn_cons, openIn_cons, ih, hdisk, slotsOf, slotsOf, hslot]
  have hslots : S'.openSlots = S.openSlots := hopen _
  unfold Room at h ⊢
  rw [hslots, hindex, hdisk]
  exact h

/-- What `alloc_anode` hands out, and what it does not look at. -/
structure NewAnode (S S' : Store) (nr : ℕ) (s : Slot) : Prop where
  data : S'.data = S.data
  free : S'.live.free = S.live.free
  pos : ANODE_USERFIRST ≤ nr
  unused : S.Unused nr
  get : S'.live.getAnode nr = .ok (s.anode nr)

theorem mem_openIn {x : ℕ} (l : List ℕ) (h : x ∈ S.openIn l) :
    x / 65536 ∈ l ∧ S.disk.index (x / 65536) ≠ 0 ∧ x % 65536 < SLOTS ∧ ANODE_USERFIRST ≤ x ∧
      (S.live.slot x).IsFree := by
  have hslots : SLOTS = 84 := rfl
  induction l with
  | nil => cases h
  | cons seq rest ih =>
      rw [openIn_cons] at h
      split at h
      · cases h
      · rename_i hidx
        rcases List.mem_append.mp h with h | h
        · obtain ⟨off, hoff, rfl⟩ := List.mem_map.mp h
          obtain ⟨hr, hc⟩ := List.mem_filter.mp hoff
          have hlt := List.mem_range.mp hr
          simp only [Bool.and_eq_true, decide_eq_true_eq] at hc
          have hdiv : (seq * 65536 + off) / 65536 = seq := by omega
          have hmod : (seq * 65536 + off) % 65536 = off := by omega
          rw [hdiv, hmod]
          exact ⟨List.mem_cons_self, hidx, hlt, hc.1, hc.2⟩
        · obtain ⟨h₁, h₂⟩ := ih h
          exact ⟨List.mem_cons_of_mem seq h₁, h₂⟩

theorem nodup_openIn {l : List ℕ} (h : l.Nodup) : (S.openIn l).Nodup := by
  induction l with
  | nil => exact List.nodup_nil
  | cons seq rest ih =>
      obtain ⟨hseq, hrest⟩ := List.nodup_cons.mp h
      rw [openIn_cons]
      split
      · exact List.nodup_nil
      · refine List.nodup_append.mpr ⟨?_, ih hrest, fun x hx y hy hxy => ?_⟩
        · refine List.Nodup.map (fun a b hab => ?_) (List.nodup_range.filter _)
          have heq : seq * 65536 + a = seq * 65536 + b := hab
          omega
        · obtain ⟨off, hoff, rfl⟩ := List.mem_map.mp hx
          have hlt := List.mem_range.mp (List.mem_of_mem_filter hoff)
          have hslots : SLOTS = 84 := rfl
          have hdiv : (seq * 65536 + off) / 65536 = seq := by omega
          have hmem := (mem_openIn rest hy).1
          rw [← hxy, hdiv] at hmem
          exact hseq hmem

/-- The store with a new anode block. -/
def withAnodeBlock (seqnr k : ℕ) (S : Store) : Store :=
  register seqnr (Geometry.blockAt k) (setDir (Geometry.blockAt k) none
    { takeReserved k S with datestamp := S.datestamp + 1 })

theorem post_allocAnodeBlock (h : S.Sane) {seqnr : ℕ} (hidx : S.disk.index seqnr = 0) :
    Post (allocAnodeBlock seqnr) (fun b S' => ∃ k, b = Geometry.blockAt k ∧ S.resFree k = true ∧
      seqnr < 253 ∧ S' = withAnodeBlock seqnr k S) anyError S := by
  refine post_allocReservedBlock.seq ?_
  rintro _ _ ⟨k, rfl, hk, rfl⟩
  refine post_nextDatestamp.seq ?_
  rintro _ _ ⟨rfl, -⟩
  have husable : ({ takeReserved k S with datestamp := (takeReserved k S).datestamp + 1 } :
      Store).Usable (Geometry.blockAt k) := (taken_takeReserved h hk).2
  refine post_get ?_
  rw [if_pos ⟨husable, hidx⟩]
  refine post_set ?_
  by_cases hseq : 253 ≤ seqnr
  · rw [if_pos hseq]
    exact post_fail
  · rw [if_neg hseq]
    refine post_modify (post_pure ?_)
    exact ⟨k, rfl, hk, by omega, rfl⟩

theorem index_withAnodeBlock (seqnr k s : ℕ) : (withAnodeBlock seqnr k S).live.index s =
    if s = seqnr then Geometry.blockAt k else S.live.index s := by
  by_cases hs : s = seqnr
  · rw [if_pos hs, hs]
    exact Function.update_self _ _ _
  · rw [if_neg hs]
    exact Function.update_of_ne hs _ _

theorem stays_withAnodeBlock (h : S.Sane) {seqnr k : ℕ} (hidx : S.live.index seqnr = 0)
    (hk : S.resFree k = true) (X : ℕ → Prop) : S.Stays (withAnodeBlock seqnr k S) X := by
  have hnew := not_taken_of_free h hk
  have hdir : ∀ b, S.Taken b → (withAnodeBlock seqnr k S).live.dir b = S.live.dir b := by
    intro b hb
    refine Function.update_of_ne ?_ _ _
    rintro rfl
    exact hnew hb
  refine ⟨rfl, rfl, fun b hb => ?_, fun b hb hd => by rw [hdir b hb]; exact hd,
    fun b hb _ => hdir b hb, fun nr a ha hc => ?_⟩
  · have hne : b ≠ Geometry.blockAt k := by
      rintro rfl
      exact hnew hb
    have htaken := (stays_takeReserved (S := S) k X).taken b hb
    rcases htaken with ⟨h₁, h₂, h₃⟩ | htaken
    · refine Or.inl ⟨h₁, fun s => ?_, h₃⟩
      rw [index_withAnodeBlock]
      split
      · exact hne.symm
      · exact h₂ s
    · exact Or.inr htaken
  · obtain ⟨h₁, h₂, rfl⟩ := Meta.getAnode_ok ha
    have hseq : nr / 65536 ≠ seqnr := by
      rintro rfl
      exact h₁ hidx
    have hslot : (withAnodeBlock seqnr k S).live.slot nr = S.live.slot nr := if_neg hseq
    have hget := @Meta.getAnode_of (withAnodeBlock seqnr k S).live nr
      (by rw [index_withAnodeBlock, if_neg hseq]; exact h₁) h₂
    rw [hget, hslot]

theorem Sane.withAnodeBlock (h : S.Sane) {seqnr k : ℕ} (hidx : S.live.index seqnr = 0)
    (hseq : seqnr < 253) (hk : S.resFree k = true) : (withAnodeBlock seqnr k S).Sane := by
  obtain ⟨hk₁, hk₂, hk₃⟩ := h.reserve k hk
  have htake := h.takeReserved hk
  refine ⟨fun j hj => ?_, fun s hs => ?_, fun s hs => ?_, htake.blocks, htake.reserved, htake.bound⟩
  · obtain ⟨hjk, hj⟩ := takeReserved_free (S := S) hj
    obtain ⟨h₁, h₂, h₃⟩ := h.reserve j hj
    refine ⟨h₁, h₂, fun s => ?_⟩
    rw [index_withAnodeBlock]
    split
    · simp only [Geometry.blockAt]
      omega
    · exact h₃ s
  · rw [index_withAnodeBlock] at hs ⊢
    split
    · rename_i hss
      refine ⟨hss ▸ hseq, ⟨k, hk₁, hk₂, rfl⟩, fun j hj => ?_⟩
      have hjk : j = k := by
        simp only [Geometry.blockAt] at hj
        omega
      rw [hjk]
      exact Function.update_self _ _ _
    · rename_i hss
      rw [if_neg hss] at hs
      exact htake.index s hs
  · have hdisk := h.disk s hs
    have hne : s ≠ seqnr := by
      rintro rfl
      rw [hidx] at hdisk
      exact hs hdisk.symm
    rw [index_withAnodeBlock, if_neg hne]
    exact hdisk

/-- What the loop of `alloc_anode` does: it takes an open slot, or the first user slot of a new
anode block. -/
theorem post_allocAnodeLoop (h : S.Sane) {cs bn nx : ℕ} (l : List ℕ)
    (hidx : S.openIn l = [] → ∀ s, S.live.index s = S.disk.index s) :
    Post (allocAnodeLoop cs bn nx l) (fun nr S' =>
      (nr ∈ S.openIn l ∧ S' = setSlot nr (.ofNat cs bn nx) S) ∨
      (S.openIn l = [] ∧ ∃ seq k, S.live.index seq = 0 ∧ S.resFree k = true ∧ seq < 253 ∧
        nr = seq * 65536 + ANODE_USERFIRST ∧
        S' = setSlot nr (.ofNat cs bn nx) (withAnodeBlock seq k S))) anyError S := by
  induction l with
  | nil => exact post_fail
  | cons seq rest ih =>
      unfold allocAnodeLoop
      refine post_get ?_
      by_cases hseq : S.disk.index seq = 0
      · rw [if_pos hseq]
        have hopen : S.openIn (seq :: rest) = [] := by rw [openIn_cons, if_pos hseq]
        have hlive : S.live.index seq = 0 := (hidx hopen seq).trans hseq
        refine (post_allocAnodeBlock h hseq).seq ?_
        rintro _ _ ⟨k, rfl, hk, hlt, rfl⟩
        have hnew : (withAnodeBlock seq k S).live.index seq = Geometry.blockAt k := by
          rw [index_withAnodeBlock, if_pos rfl]
        have hne : Geometry.blockAt k ≠ 0 := by
          simp only [Geometry.blockAt]
          omega
        refine post_get ?_
        rw [if_neg (by rw [hnew]; exact fun h => h.elim hne fun h => h rfl)]
        exact post_set (post_pure (Or.inr ⟨hopen, seq, k, hlive, hk, hlt, rfl, rfl⟩))
      · rw [if_neg hseq, freeSlot_eq]
        rcases hslots : S.slotsOf seq with _ | ⟨off, offs⟩
        · have hopen : S.openIn (seq :: rest) = S.openIn rest := by
            rw [openIn_cons, if_neg hseq, hslots]
            rfl
          rw [hopen] at hidx ⊢
          exact ih hidx
        · have hmem : seq * 65536 + off ∈ S.openIn (seq :: rest) := by
            rw [openIn_cons, if_neg hseq, hslots]
            exact List.mem_append_left _ List.mem_cons_self
          exact post_set (post_pure (Or.inl ⟨hmem, rfl⟩))

/-- An anode is taken from the free slots. -/
theorem post_allocAnode (h : S.Sane) {cs bn nx k : ℕ} (hs : ¬ (Slot.ofNat cs bn nx).IsFree)
    (hroom : S.Room (k + 1)) :
    Post (allocAnode cs bn nx) (fun nr S' => NewAnode S S' nr (.ofNat cs bn nx) ∧ S'.Sane ∧
      S'.Room k ∧ ∀ X, S.Stays S' X) anyError S := by
  have hidx : S.openIn (List.range 256) = [] → ∀ s, S.live.index s = S.disk.index s := by
    intro hopen
    have hopen' : S.openSlots = [] := hopen
    rcases hroom with hlen | ⟨-, hidx⟩
    · rw [hopen'] at hlen
      exact absurd hlen (by simp)
    · exact hidx
  have hfirst : ANODE_USERFIRST = 6 := rfl
  have hslots : SLOTS = 84 := rfl
  refine (post_allocAnodeLoop h (List.range 256) hidx).mono ?_ fun _ _ h => h
  rintro nr S' (⟨hmem, rfl⟩ | ⟨hopen, seq, j, hseq, hj, hlt, rfl, rfl⟩)
  · obtain ⟨-, hreg, hoff, hpos, hfree⟩ := mem_openIn _ hmem
    have hlive : S.live.index (nr / 65536) ≠ 0 := by
      rw [h.disk _ hreg]
      exact hreg
    have hunused : S.Unused nr := by
      intro a ha
      obtain ⟨-, -, rfl⟩ := Meta.getAnode_ok ha
      show (S.live.slot nr).clustersize.toNat = 0
      rw [hfree.1]
      rfl
    refine ⟨⟨rfl, rfl, hpos, hunused, getAnode_setSlot hlive hoff⟩, h.setSlot _ _, ?_,
      fun X => stays_setSlot hunused _ X⟩
    have hall : k + 1 ≤ S.openSlots.length ∨ k + 1 ≤ S.openSlots.length + 1 ∧
        ∀ s, S.live.index s = S.disk.index s := hroom
    have hnodup : S.openSlots.Nodup := nodup_openIn List.nodup_range
    have hfilter : (setSlot nr (.ofNat cs bn nx) S).openSlots =
      S.openSlots.filter (· != nr) := openIn_setSlot hs _
    have hmem' : nr ∈ S.openSlots := hmem
    have hpos' : 0 < S.openSlots.length := List.length_pos_of_mem hmem'
    have hlen : (setSlot nr (.ofNat cs bn nx) S).openSlots.length = S.openSlots.length - 1 := by
      rw [hfilter, ← hnodup.erase_eq_filter, List.length_erase_of_mem hmem']
    rcases hall with hlen' | ⟨hlen', hsame⟩
    · exact Or.inl (by omega)
    · exact Or.inr ⟨by omega, hsame⟩
  · have hdiv : (seq * 65536 + ANODE_USERFIRST) / 65536 = seq := by omega
    have hmod : (seq * 65536 + ANODE_USERFIRST) % 65536 < SLOTS := by omega
    have hunused : S.Unused (seq * 65536 + ANODE_USERFIRST) := by
      intro a ha
      obtain ⟨hreg, -, -⟩ := Meta.getAnode_ok ha
      rw [hdiv] at hreg
      exact absurd hseq hreg
    have hreg : (withAnodeBlock seq j S).live.index
        ((seq * 65536 + ANODE_USERFIRST) / 65536) ≠ 0 := by
      rw [hdiv, index_withAnodeBlock, if_pos rfl]
      simp only [Geometry.blockAt]
      omega
    have hunused' : (withAnodeBlock seq j S).Unused (seq * 65536 + ANODE_USERFIRST) := by
      intro a ha
      obtain ⟨-, -, rfl⟩ := Meta.getAnode_ok ha
      have hslot : (withAnodeBlock seq j S).live.slot (seq * 65536 + ANODE_USERFIRST) = .empty :=
        if_pos hdiv
      rw [hslot]
      rfl
    refine ⟨⟨rfl, rfl, Nat.le_add_left _ _, hunused, getAnode_setSlot hreg hmod⟩,
      (h.withAnodeBlock hseq hlt hj).setSlot _ _, Or.inl ?_, fun X =>
      (stays_withAnodeBlock h hseq hj X).trans (stays_setSlot hunused' _ X)⟩
    rcases hroom with hlen | ⟨hlen, -⟩
    · have hnil : S.openSlots = [] := hopen
      rw [hnil] at hlen
      simp at hlen
    · have hnil : S.openSlots = [] := hopen
      rw [hnil] at hlen
      simp at hlen
      omega

/-! ## Chains of new anodes -/

/-- A chain made of anodes that were in no use. -/
structure NewChain (S S' : Store) (nr : ℕ) (chain : List Anode) : Prop where
  data : S'.data = S.data
  free : S'.live.free = S.live.free
  linked : S'.live.Linked nr chain
  used : ∀ a ∈ chain, a.clustersize ≠ 0
  unused : ∀ a ∈ chain, S.Unused a.nr
  nodup : (chain.map Anode.nr).Nodup

theorem Sane.anode_lt (h : S.Sane) {nr : ℕ} {a : Anode} (ha : S.live.getAnode nr = .ok a) :
    nr < U32 := by
  obtain ⟨hreg, -, -⟩ := Meta.getAnode_ok ha
  have hlt := (h.index _ hreg).1
  have hu : U32 = 4294967296 := rfl
  omega

theorem anode_ofNat {cs bn nx nr : ℕ} (h₁ : cs < U32) (h₂ : bn < U32) (h₃ : nx < U32) :
    (Slot.ofNat cs bn nx).anode nr = ⟨cs, bn, nx, nr⟩ := by
  have hu : U32 = 2 ^ 32 := rfl
  rw [hu] at h₁ h₂ h₃
  simp only [Slot.anode, Slot.ofNat, UInt32.toNat_ofNat']
  rw [Nat.mod_eq_of_lt h₁, Nat.mod_eq_of_lt h₂, Nat.mod_eq_of_lt h₃]

theorem not_isFree_ofNat {cs bn nx : ℕ} (h₀ : 0 < cs) (h₁ : cs < U32) :
    ¬ (Slot.ofNat cs bn nx).IsFree := by
  rintro ⟨hcs, -⟩
  have hnat := congrArg UInt32.toNat hcs
  have hu : U32 = 2 ^ 32 := rfl
  simp only [Slot.ofNat, UInt32.toNat_ofNat'] at hnat
  rw [Nat.mod_eq_of_lt (hu ▸ h₁)] at hnat
  have hz : UInt32.toNat 0 = 0 := rfl
  omega

/-- Adding an anode in front of a new chain. -/
theorem NewChain.cons {S₁ S₂ : Store} {cs bn nx nr : ℕ} {chain : List Anode}
    (h : NewChain S S₁ nx chain) (hst : S.Stays S₁ fun _ => False)
    (ha : NewAnode S₁ S₂ nr (.ofNat cs bn nx)) (hst₂ : S₁.Stays S₂ fun _ => False)
    (h₀ : 0 < cs) (h₁ : cs < U32) (h₂ : bn < U32) (h₃ : nx < U32) :
    NewChain S S₂ nr (⟨cs, bn, nx, nr⟩ :: chain) := by
  have hget := ha.get
  rw [anode_ofNat h₁ h₂ h₃] at hget
  have hfirst : ANODE_USERFIRST = 6 := rfl
  have hpos := ha.pos
  refine ⟨ha.data.trans h.data, ha.free.trans h.free, ⟨?_, hget, hst₂.linked h.linked h.used⟩,
    ?_, ?_, ?_⟩
  · show nr ≠ 0
    omega
  · intro a hmem
    rcases List.mem_cons.mp hmem with rfl | hmem
    · exact Nat.ne_of_gt h₀
    · exact h.used a hmem
  · intro a hmem
    rcases List.mem_cons.mp hmem with rfl | hmem
    · exact hst.unused ha.unused
    · exact h.unused a hmem
  · rw [List.map_cons]
    refine List.nodup_cons.mpr ⟨fun hmem => ?_, h.nodup⟩
    obtain ⟨a, hal, hanr⟩ := List.mem_map.mp hmem
    have hget₁ := h.linked.mem hal
    rw [hanr] at hget₁
    exact h.used a hal (ha.unused a hget₁)

/-- The anodes of `clusters`, allocated from the last one to the first. -/
theorem post_createAnodes (cl : List (ℕ × ℕ)) : ∀ {S : Store} {k : ℕ}, S.Sane →
    (∀ p ∈ cl, 0 < p.2 ∧ p.2 < U32 ∧ p.1 < U32) → S.Room (cl.length + k) →
    Post (createAnodes cl) (fun nr S' => S'.Sane ∧ S'.Room k ∧ (∀ X, S.Stays S' X) ∧ nr < U32 ∧
      (cl ≠ [] → nr ≠ 0) ∧ ∃ chain, NewChain S S' nr chain ∧
        AnodeReader.chainBlocks chain = cl.flatMap fun p => List.range' p.1 p.2) anyError S := by
  induction cl with
  | nil =>
      intro S k h _ hroom
      have hu : ANODE_EOF < U32 := by decide
      have hroom' : S.Room k := by
        rw [List.length_nil, Nat.zero_add] at hroom
        exact hroom
      exact post_pure ⟨h, hroom', fun X => .refl S X, hu, fun h => absurd rfl h, [],
        ⟨rfl, rfl, rfl, fun _ h => absurd h List.not_mem_nil, fun _ h => absurd h List.not_mem_nil,
          List.nodup_nil⟩, rfl⟩
  | cons p rest ih =>
      intro S k h hcl hroom
      obtain ⟨start, count⟩ := p
      obtain ⟨h₀, h₁, h₂⟩ := hcl _ List.mem_cons_self
      have hlen : ((start, count) :: rest).length + k = rest.length + (k + 1) := by
        rw [List.length_cons]
        omega
      rw [hlen] at hroom
      refine (ih h (fun q hq => hcl q (List.mem_cons_of_mem _ hq)) hroom).seq ?_
      rintro nx S₁ ⟨hsane, hroom₁, hst, hnx, -, chain, hchain, hblocks⟩
      refine (post_allocAnode hsane (not_isFree_ofNat h₀ h₁) hroom₁).mono ?_ fun _ _ h => h
      rintro nr S₂ ⟨hnew, hsane₂, hroom₂, hst₂⟩
      have hlt := hsane₂.anode_lt hnew.get
      have hfirst : ANODE_USERFIRST = 6 := rfl
      have hpos := hnew.pos
      refine ⟨hsane₂, hroom₂, fun X => (hst X).trans (hst₂ X), hlt, fun _ => by omega, _,
        hchain.cons (hst _) hnew (hst₂ _) h₀ h₁ h₂ hnx, ?_⟩
      rw [List.flatMap_cons, ← hblocks]
      rfl

end Store

end Pfs3
