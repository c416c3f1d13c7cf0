import Pfs3.Store.Calls

/-!
# What a volume is for

A plain file system: a directory gives each name at most one object, upper and lower case alike, and
a file holds bytes.  `FileSystem.Step` says what a call means when it succeeds.  Objects go by a
handle, so that two names can be told apart from two objects; nothing else of the volume is left.
-/

namespace Pfs3

open ByteList

/-- What two spellings of a name have in common. -/
def foldName (name : Name) : Name := name.map Char.toLower

theorem nameEqCi_iff {a b : Name} : nameEqCi a b = true ↔ foldName a = foldName b := by
  unfold nameEqCi foldName
  rw [beq_iff_eq]

/-- What a directory knows of an object. -/
structure Item where
  name : Name
  type : ℤ
  handle : ℕ
  size : ℕ
  protection : ℕ

namespace Item

def isDir (i : Item) : Bool := i.type == ST_USERDIR

/-- A plain file: the type is one that `write_file` overwrites. -/
def isPlain (i : Item) : Prop := i.type = ST_FILE ∨ i.type = ST_ROLLOVERFILE

end Item

/-- The objects of the directories, by handle and folded name, and the bytes of the files. -/
@[ext]
structure FileSystem where
  items : ℕ → Name → Option Item
  bytes : ℕ → Bytes

namespace FileSystem

variable {fs fs' : FileSystem} {p q nr h : ℕ} {name a b : Name} {i : Item} {data : Bytes}

/-- A root directory without entries. -/
def empty : FileSystem := ⟨fun _ _ => none, fun _ => []⟩

/-- The object of that name in the directory `p`. -/
def find (fs : FileSystem) (p : ℕ) (name : Name) : Option Item := fs.items p (foldName name)

/-- Make `o` what the directory `p` knows under the name. -/
def set (fs : FileSystem) (p : ℕ) (name : Name) (o : Option Item) : FileSystem where
  items := Function.update fs.items p (Function.update (fs.items p) (foldName name) o)
  bytes := fs.bytes

/-- Give the name of `i` in the directory `p` to `i`. -/
def put (fs : FileSystem) (p : ℕ) (i : Item) : FileSystem := fs.set p i.name (some i)

/-- Take the name from the directory `p`. -/
def drop (fs : FileSystem) (p : ℕ) (name : Name) : FileSystem := fs.set p name none

/-- Make `data` the bytes of the file `h`. -/
def fill (fs : FileSystem) (h : ℕ) (data : Bytes) : FileSystem :=
  { fs with bytes := Function.update fs.bytes h data }

/-! ## Laws -/

theorem find_set {o : Option Item} : (fs.set p name o).find q a =
    if q = p ∧ foldName a = foldName name then o else fs.find q a := by
  unfold find set
  dsimp only
  by_cases hq : q = p
  · subst hq
    rw [Function.update_self]
    by_cases ha : foldName a = foldName name
    · rw [if_pos ⟨rfl, ha⟩, ha, Function.update_self]
    · rw [if_neg fun h => ha h.2, Function.update_of_ne ha]
  · rw [if_neg fun h => hq h.1, Function.update_of_ne hq]

theorem find_put : (fs.put p i).find q a =
    if q = p ∧ foldName a = foldName i.name then some i else fs.find q a := find_set

theorem find_drop : (fs.drop p name).find q a =
    if q = p ∧ foldName a = foldName name then none else fs.find q a := find_set

@[simp] theorem find_fill : (fs.fill h data).find p a = fs.find p a := rfl

@[simp] theorem bytes_put : (fs.put p i).bytes = fs.bytes := rfl

@[simp] theorem bytes_drop : (fs.drop p name).bytes = fs.bytes := rfl

@[simp] theorem fill_bytes : fs.fill h (fs.bytes h) = fs := by
  unfold fill
  rw [Function.update_eq_self]

theorem bytes_fill : (fs.fill h data).bytes nr = if nr = h then data else fs.bytes nr :=
  Function.update_apply ..

/-- A name that is given anew need not be taken away first. -/
theorem put_drop_drop : ((fs.drop q i.name).drop p a).put q i = (fs.drop p a).put q i := by
  refine FileSystem.ext (funext fun x => funext fun n => ?_) rfl
  unfold put drop set
  dsimp only
  simp only [Function.update_apply, ite_apply]
  grind

/-! ## Paths -/

/-- The directory at the end of the way from `p`. -/
def walk (fs : FileSystem) : (p : ℕ) → List Name → Except Error ℕ
  | p, [] => .ok p
  | p, part :: rest =>
      match fs.find p part with
      | none => .error (.notFound (String.ofList part))
      | some i => if i.isDir then walk fs i.handle rest else .error .notADirectory

/-- The directory that a path names. -/
def dirAt (fs : FileSystem) (path : Name) : Except Error ℕ := fs.walk ANODE_ROOTDIR (pathParts path)

/-- The directory that holds the object of a path, and the object's name there. -/
def parent (fs : FileSystem) (path : Name) : Except Error (Option (ℕ × Name)) :=
  match (pathParts path).getLast? with
  | none => .ok none
  | some name => (fs.walk ANODE_ROOTDIR (pathParts path).dropLast).map fun p => some (p, name)

/-- The object that a path names; the root has none. -/
def lookup (fs : FileSystem) (path : Name) : Except Error (Option Item) := do
  match ← fs.parent path with
  | none => pure none
  | some (p, name) => pure (fs.find p name)

/-- The bytes of the file that a path names. -/
def readFile (fs : FileSystem) (path : Name) : Except Error Bytes := do
  match ← fs.lookup path with
  | none => .error (.notFound (String.ofList path))
  | some i => if i.isDir then .error .notADirectory else pure (fs.bytes i.handle)

theorem readFile_of_parent {fs : FileSystem} {path : Name} {p : ℕ} {name : Name}
    (h : fs.parent path = .ok (some (p, name))) : fs.readFile path =
      match fs.find p name with
      | none => .error (.notFound (String.ofList path))
      | some i => if i.isDir then .error .notADirectory else pure (fs.bytes i.handle) := by
  rw [readFile, lookup, h]
  rfl

/-! ## Calls -/

/-- The handle is one of no object. -/
structure Unused (fs : FileSystem) (nr : ℕ) : Prop where
  root : nr ≠ ANODE_ROOTDIR
  handle : ∀ p a i, fs.find p a = some i → i.handle ≠ nr
  items : ∀ a, fs.find nr a = none

/-- The path names a place in a directory: the directory `p` and the name there. -/
def Places (fs : FileSystem) (path : Name) (p : ℕ) (name : Name) : Prop :=
  fs.parent path = .ok (some (p, name))

/-- What a call does that succeeds.  A new object gets a handle `nr` that nobody has. -/
inductive Step (fs : FileSystem) : Call → FileSystem → Prop
  | create {path : Name} {data : Bytes} {p : ℕ} {name : Name} (nr : ℕ)
      (places : fs.Places path p name) (absent : fs.find p name = none) (unused : fs.Unused nr) :
      Step fs (.writeFile path data) ((fs.put p ⟨name, ST_FILE, nr, data.length, 0⟩).fill nr data)
  | overwrite {path : Name} {data : Bytes} {p : ℕ} {name : Name} {i : Item}
      (places : fs.Places path p name) (found : fs.find p name = some i) (plain : i.isPlain) :
      Step fs (.writeFile path data)
        ((fs.put p { i with size := data.length }).fill i.handle data)
  | createDir {path : Name} {p : ℕ} {name : Name} (nr : ℕ) (places : fs.Places path p name)
      (absent : fs.find p name = none) (unused : fs.Unused nr) :
      Step fs (.createDir path) (fs.put p ⟨name, ST_USERDIR, nr, 0, 0⟩)
  | createSoftlink {path target : Name} {p : ℕ} {name : Name} (nr : ℕ)
      (places : fs.Places path p name) (absent : fs.find p name = none) (unused : fs.Unused nr) :
      Step fs (.createSoftlink path target)
        ((fs.put p ⟨name, ST_SOFTLINK, nr, (asBytes target).length, 0⟩).fill nr (asBytes target))
  | delete {path : Name} {p : ℕ} {name : Name} {i : Item} (places : fs.Places path p name)
      (found : fs.find p name = some i) (empty : ∀ a, fs.find i.handle a = none) :
      Step fs (.delete path) (fs.drop p name)
  | rename {s d : ℕ} {a b : Name} {i : Item} (found : fs.find s a = some i)
      (apart : ¬ (s = d ∧ foldName a = foldName b))
      (empty : ∀ j, fs.find d b = some j → ∀ c, fs.find j.handle c = none) :
      Step fs (.renameIn s a d b) ((fs.drop s a).put d { i with name := b })
  | protect {p : ℕ} {name : Name} {i : Item} (protection : UInt8) (found : fs.find p name = some i) :
      Step fs (.updateDirEntryProtection p name protection)
        (fs.put p { i with protection := protection.toNat })
  | setVolumeName (name : Name) : Step fs (.setVolumeName name) fs

/-- The calls one after the other. -/
inductive Run : FileSystem → List Call → FileSystem → Prop
  | nil {fs : FileSystem} : Run fs [] fs
  | cons {fs fs₁ fs' : FileSystem} {c : Call} {calls : List Call} (step : fs.Step c fs₁)
      (rest : Run fs₁ calls fs') : Run fs (c :: calls) fs'

end FileSystem

end Pfs3
