import Pfs3.Tree.FileSystem

/-!
# What the calls keep

In every file system that calls build, the directories form a tree: an object has one place, so no
two paths lead to it, and a file is as long as its directory says.  What a run does not name stays
as it is.
-/

namespace Pfs3

open ByteList

/-- The names in a directory that the call is about. -/
def Call.names : Call → List Name
  | .writeFile path _ | .createDir path | .createSoftlink path _ | .createHardlink path _
  | .delete path => (pathParts path).getLast?.toList
  | .renameIn _ srcName _ dstName => [srcName, dstName]
  | .updateDirEntryProtection _ name _ => [name]
  | .setVolumeName _ => []

/-- The call is about an object of that name. -/
def Call.Uses (c : Call) (name : Name) : Prop := ∃ n ∈ c.names, foldName n = foldName name

namespace FileSystem

variable {fs fs' : FileSystem} {p q : ℕ} {name a b : Name} {i j : Item} {c : Call}
  {calls : List Call} {data : Bytes} {path : Name}

/-- Each object has one place, none is the root directory, and files have the listed size. -/
structure Wf (fs : FileSystem) : Prop where
  named : ∀ {p a i}, fs.find p a = some i → foldName i.name = foldName a
  place : ∀ {p q a b i j}, fs.find p a = some i → fs.find q b = some j → i.handle = j.handle →
    p = q ∧ foldName a = foldName b
  root : ∀ {p a i}, fs.find p a = some i → i.handle ≠ ANODE_ROOTDIR
  size : ∀ {p a i}, fs.find p a = some i → i.isDir = false →
    (fs.bytes i.handle).length = i.size

theorem find_congr (h : foldName a = foldName b) : fs.find p a = fs.find p b :=
  congrArg (fs.items p) h

namespace Wf

/-- An object gets an entry and contents; a handle that is in use has that place already. -/
theorem enter (h : fs.Wf) (root : i.handle ≠ ANODE_ROOTDIR)
    (own : ∀ {q b j}, fs.find q b = some j → j.handle = i.handle →
      q = p ∧ foldName b = foldName i.name)
    (size : i.isDir = false → data.length = i.size) : ((fs.put p i).fill i.handle data).Wf := by
  have hcases : ∀ {q b j}, ((fs.put p i).fill i.handle data).find q b = some j →
      (q = p ∧ foldName b = foldName i.name ∧ j = i) ∨
        (fs.find q b = some j ∧ j.handle ≠ i.handle) := by
    intro q b j hj
    rw [find_fill, find_put] at hj
    split at hj
    · rename_i hplace
      cases hj
      exact .inl ⟨hplace.1, hplace.2, rfl⟩
    · rename_i hplace
      exact .inr ⟨hj, fun heq => hplace (own hj heq)⟩
  constructor
  · intro q b j hj
    rcases hcases hj with ⟨-, hb, rfl⟩ | ⟨hj, -⟩
    · exact hb.symm
    · exact h.named hj
  · intro q r b c j k hj hk heq
    rcases hcases hj with ⟨rfl, hb, rfl⟩ | ⟨hj, hne⟩ <;>
      rcases hcases hk with ⟨rfl, hc, rfl⟩ | ⟨hk, hne'⟩
    · exact ⟨rfl, hb.trans hc.symm⟩
    · exact absurd heq.symm hne'
    · exact absurd heq hne
    · exact h.place hj hk heq
  · intro q b j hj
    rcases hcases hj with ⟨-, -, rfl⟩ | ⟨hj, -⟩
    · exact root
    · exact h.root hj
  · intro q b j hj hfile
    rw [bytes_fill, bytes_put]
    rcases hcases hj with ⟨-, -, rfl⟩ | ⟨hj, hne⟩
    · rw [if_pos rfl]
      exact size hfile
    · rw [if_neg hne]
      exact h.size hj hfile

/-- An entry without contents of its own. -/
theorem put (h : fs.Wf) (root : i.handle ≠ ANODE_ROOTDIR)
    (own : ∀ {q b j}, fs.find q b = some j → j.handle = i.handle →
      q = p ∧ foldName b = foldName i.name)
    (size : i.isDir = false → (fs.bytes i.handle).length = i.size) : (fs.put p i).Wf := by
  have hwf := h.enter root own size
  have hbytes : (fs.put p i).fill i.handle (fs.bytes i.handle) = fs.put p i := fill_bytes
  rwa [hbytes] at hwf

theorem drop (h : fs.Wf) : (fs.drop p name).Wf := by
  have hold : ∀ {q b j}, (fs.drop p name).find q b = some j → fs.find q b = some j := by
    intro q b j hj
    rw [find_drop] at hj
    split at hj
    · cases hj
    · exact hj
  exact
    { named := fun hj => h.named (hold hj)
      place := fun hj hk => h.place (hold hj) (hold hk)
      root := fun hj => h.root (hold hj)
      size := fun hj => h.size (hold hj) }

/-- The place of an object is the one where it was found. -/
theorem at_place (h : fs.Wf) (hi : fs.find p name = some i) (hj : fs.find q b = some j)
    (heq : j.handle = i.handle) : q = p ∧ foldName b = foldName i.name := by
  obtain ⟨rfl, hb⟩ := h.place hj hi heq
  exact ⟨rfl, hb.trans (h.named hi).symm⟩

theorem step (h : fs.Wf) (hs : fs.Step c fs') : fs'.Wf := by
  cases hs with
  | create nr _ _ unused =>
      exact h.enter (i := ⟨_, _, nr, _, _⟩) unused.root
        (fun hj heq => absurd heq (unused.handle _ _ _ hj)) fun _ => rfl
  | @overwrite path data p name i places found plain =>
      have hroot := h.root found
      have hplace : ∀ {q b j}, fs.find q b = some j → j.handle = i.handle →
          q = p ∧ foldName b = foldName i.name := h.at_place found
      exact h.enter (i := { i with size := data.length }) hroot hplace fun _ => rfl
  | createDir nr _ _ unused =>
      exact h.put (i := ⟨_, ST_USERDIR, nr, _, _⟩) unused.root
        (fun hj heq => absurd heq (unused.handle _ _ _ hj))
        fun (hfile : (ST_USERDIR == ST_USERDIR) = false) => absurd hfile (by decide)
  | createSoftlink nr _ _ unused =>
      exact h.enter (i := ⟨_, _, nr, _, _⟩) unused.root
        (fun hj heq => absurd heq (unused.handle _ _ _ hj)) fun _ => rfl
  | delete => exact h.drop
  | @rename s d a b i found apart empty =>
      have hroot := h.root found
      have hsize := h.size found
      refine h.drop.put (i := { i with name := b }) hroot ?_ hsize
      intro q x j hj heq
      rw [find_drop] at hj
      split at hj
      · cases hj
      · rename_i hplace
        exact absurd (h.place hj found heq) hplace
  | @protect p name i protection found =>
      have hroot := h.root found
      have hplace : ∀ {q b j}, fs.find q b = some j → j.handle = i.handle →
          q = p ∧ foldName b = foldName i.name := h.at_place found
      have hsize := h.size found
      exact h.put (i := { i with protection := protection.toNat }) hroot hplace hsize
  | setVolumeName => exact h

theorem run (h : fs.Wf) (hr : Run fs calls fs') : fs'.Wf := by
  induction hr with
  | nil => exact h
  | cons step _ ih => exact ih (h.step step)

end Wf

/-! ## One way to each object -/

theorem Places.mem_names (h : fs.Places path p name) : name ∈ (pathParts path).getLast?.toList := by
  unfold Places parent at h
  cases hlast : (pathParts path).getLast? with
  | none =>
      rw [hlast] at h
      cases h
  | some x =>
      rw [hlast] at h
      cases hw : fs.walk ANODE_ROOTDIR (pathParts path).dropLast with
      | error e =>
          dsimp only at h
          rw [hw] at h
          cases h
      | ok r =>
          dsimp only at h
          rw [hw] at h
          cases h
          exact List.mem_singleton_self _

/-- What a call is not about is found as before. -/
theorem Step.find_eq (h : fs.Step c fs') (hwf : fs.Wf) (hc : ¬ c.Uses a) :
    fs'.find q a = fs.find q a := by
  have hput : ∀ {fs : FileSystem} {p : ℕ} {i : Item} {n}, n ∈ c.names →
      foldName i.name = foldName n → (fs.put p i).find q a = fs.find q a := by
    intro fs p i n hn hname
    rw [find_put, if_neg]
    exact fun hq => hc ⟨n, hn, hname.symm.trans hq.2.symm⟩
  have hdrop : ∀ {fs : FileSystem} {p : ℕ} {n}, n ∈ c.names →
      (fs.drop p n).find q a = fs.find q a := by
    intro fs p n hn
    rw [find_drop, if_neg]
    exact fun hq => hc ⟨n, hn, hq.2.symm⟩
  cases h with
  | create nr places _ _ => exact hput places.mem_names rfl
  | @overwrite _ data _ _ i places found _ =>
      exact hput (i := { i with size := data.length }) places.mem_names (hwf.named found :)
  | createDir nr places _ _ => exact hput places.mem_names rfl
  | createSoftlink nr places _ _ => exact hput places.mem_names rfl
  | delete places _ _ => exact hdrop places.mem_names
  | rename found _ _ =>
      exact (hput (List.mem_cons_of_mem _ List.mem_cons_self) rfl).trans (hdrop List.mem_cons_self)
  | @protect _ _ i protection found =>
      exact hput (i := { i with protection := protection.toNat }) List.mem_cons_self
        (hwf.named found :)
  | setVolumeName => rfl

theorem Run.find_eq (h : Run fs calls fs') (hwf : fs.Wf) (hcalls : ∀ c ∈ calls, ¬ c.Uses a) :
    fs'.find q a = fs.find q a := by
  induction h with
  | nil => rfl
  | cons step rest ih =>
      rw [ih (hwf.step step) fun c hc => hcalls c (List.mem_cons_of_mem _ hc),
        step.find_eq hwf (hcalls _ List.mem_cons_self)]

theorem walk_congr {parts : List Name} (h : ∀ part ∈ parts, ∀ q, fs'.find q part = fs.find q part) :
    ∀ {p}, fs'.walk p parts = fs.walk p parts := by
  induction parts with
  | nil => exact rfl
  | cons part rest ih =>
      intro p
      unfold walk
      rw [h part List.mem_cons_self]
      split
      · rfl
      · rw [ih fun part hpart => h part (List.mem_cons_of_mem _ hpart)]

/-- No call of the run is about a component of the path. -/
def Spared (path : Name) (calls : List Call) : Prop :=
  ∀ part ∈ pathParts path, ∀ c ∈ calls, ¬ c.Uses part

theorem Run.dirAt_eq (h : Run fs calls fs') (hwf : fs.Wf) (hpath : Spared path calls) :
    fs'.dirAt path = fs.dirAt path :=
  walk_congr fun part hpart _ => h.find_eq hwf (hpath part hpart)

end FileSystem

end Pfs3
