import Mathlib.Data.List.Infix
import Pfs3.Walk.Depth

/-!
# Where an extraction writes

An entry's name is joined to the output path as it is.  A name without a slash that is not `..`
stays below; with such names everything that an extraction creates lies in the output directory.
-/

namespace Pfs3

open ByteList BlockCache Stop

/-! ## Host paths -/

namespace HostPath

end HostPath

/-- A name that stays in its directory. -/
def PlainName (name : Name) : Prop := '/' ∉ name ∧ name ≠ ['.', '.']

theorem pathParts_of_not_mem {name : Name} (h : '/' ∉ name) :
    pathParts name = if name = [] then [] else [name] := by
  have hsplit : name.splitOn '/' = [name] := List.splitOnP_eq_singleton fun c hc => by
    rw [beq_eq_false_iff_ne]
    rintro rfl
    exact h hc
  unfold pathParts
  rw [hsplit]
  cases name <;> rfl

theorem PlainName.join {name : Name} (h : PlainName name) (p : HostPath) :
    p.join name = p ++ if name = [] then [] else [name] := by
  unfold HostPath.join
  rw [if_neg, pathParts_of_not_mem h.1]
  intro hhead
  exact h.1 (List.mem_of_head? hhead)

namespace Host

/-- Everything created so far lies in `base`. -/
def Within (base : List Name) (h : Host) : Prop := ∀ place ∈ h.created, base <+: place

/-- The directories on the way to `p` exist, and `p` itself. -/
def Ready (p : HostPath) (h : Host) : Prop := ∀ q, q <+: p → h.dirs (HostPath.resolve q) = true

variable {base : List Name} {h : Host}

theorem Ready.mono {p q : HostPath} (hp : h.Ready p) (hq : q <+: p) : h.Ready q :=
  fun r hr => hp r (hr.trans hq)

theorem mkdir_spec {place : List Name} {h' : Host} (hok : h.mkdir place = .ok h')
    (hbase : h.dirs place = true ∨ base <+: place) (hw : h.Within base) :
    h'.Within base ∧ h'.dirs place = true ∧ ∀ p, h.dirs p = true → h'.dirs p = true := by
  unfold mkdir at hok
  split at hok
  · rename_i hdir
    cases hok
    exact ⟨hw, hdir, fun _ hp => hp⟩
  · rename_i hdir
    split at hok
    · cases hok
    · cases hok
      refine ⟨?_, Function.update_self _ _ _, fun p hp => ?_⟩
      · intro place' hmem
        rcases List.mem_append.mp hmem with hmem | hmem
        · exact hw place' hmem
        · rw [List.mem_singleton.mp hmem]
          exact hbase.resolve_left (by simpa using hdir)
      · by_cases heq : p = place
        · rw [heq]
          exact Function.update_self _ _ _
        · exact (Function.update_of_ne heq _ _).trans hp

theorem mkdirs_spec (l : List HostPath) : ∀ {h : Host},
    (∀ q ∈ l, h.dirs (HostPath.resolve q) = true ∨ base <+: HostPath.resolve q) →
    h.Within base → (mkdirs l h).1.Within base ∧ ((mkdirs l h).2 = .ok () →
      (∀ p, h.dirs p = true → (mkdirs l h).1.dirs p = true) ∧
        ∀ q ∈ l, (mkdirs l h).1.dirs (HostPath.resolve q) = true) := by
  induction l with
  | nil => exact fun _ hw => ⟨hw, fun _ => ⟨fun _ hp => hp, fun _ hq => by cases hq⟩⟩
  | cons q l ih =>
      intro h hl hw
      unfold mkdirs
      rcases hmk : h.mkdir (HostPath.resolve q) with f | h₁
      · refine ⟨hw, fun hr => ?_⟩
        cases hr
      · obtain ⟨hw₁, hq₁, hmono⟩ := mkdir_spec hmk (hl q List.mem_cons_self) hw
        obtain ⟨hw', hok⟩ := @ih h₁ (fun q' hq' =>
          (hl q' (List.mem_cons_of_mem q hq')).imp_left (hmono _)) hw₁
        refine ⟨hw', fun hr => ?_⟩
        obtain ⟨hdirs, hall⟩ := hok hr
        refine ⟨fun p hp => hdirs p (hmono p hp), fun q' hq' => ?_⟩
        rcases List.mem_cons.mp hq' with rfl | hq'
        · exact hdirs _ hq₁
        · exact hall q' hq'

/-- The directories made on the way to `p` are missing ones. -/
theorem createDirAll_spec {p : HostPath}
    (hbase : ∀ q, q <+: p → h.dirs (HostPath.resolve q) = true ∨ base <+: HostPath.resolve q)
    (hw : h.Within base) :
    (h.createDirAll p).1.Within base ∧
      ((h.createDirAll p).2 = .ok () → (h.createDirAll p).1.Ready p) := by
  obtain ⟨hw', hok⟩ := mkdirs_spec p.inits (fun q hq => hbase q ((List.mem_inits q p).mp hq)) hw
  exact ⟨hw', fun hr q hq => (hok hr).2 q ((List.mem_inits q p).mpr hq)⟩

theorem write_spec {p : HostPath} {h' : Host} (hok : h.write p = .ok h')
    (hbase : h.dirs (HostPath.resolve p) = true ∨ base <+: HostPath.resolve p)
    (hw : h.Within base) : h'.Within base ∧ h'.dirs = h.dirs := by
  unfold write at hok
  dsimp only at hok
  split at hok
  · rename_i hcond
    cases hok
    simp only [Bool.and_eq_true, Bool.not_eq_true'] at hcond
    refine ⟨fun place hmem => ?_, rfl⟩
    rcases List.mem_append.mp hmem with hmem | hmem
    · exact hw place hmem
    · rw [List.mem_singleton.mp hmem]
      refine hbase.resolve_left fun hdir => ?_
      rw [hdir] at hcond
      exact absurd hcond.1.2 (by decide)
  · cases hok

end Host

/-! ## The extraction -/

/-- The files and directories that a walk from `start` meets have plain names. -/
def PlainBelow (v : Volume) (start : ℕ) : Prop :=
  ∀ dirAnode, Walked v start dirAnode → ∀ entries,
    v.answer (Volume.listDirByAnode dirAnode) = .ok entries →
    ∀ e ∈ entries, e.isDir = true ∨ e.isFile = true → PlainName e.name

theorem PlainBelow.sub {v : Volume} {start : ℕ} {entries : List DirEntry} {e : DirEntry}
    (h : PlainBelow v start) (hlist : v.answer (Volume.listDirByAnode start) = .ok entries)
    (he : e ∈ entries) (hdir : e.isDir = true) : PlainBelow v e.anode := by
  intro dirAnode hwalk
  have hsub : Walked v start dirAnode := by
    induction hwalk with
    | start => exact .sub .start hlist he hdir
    | sub _ hl hm hd ih => exact .sub ih hl hm hd
  exact h dirAnode hsub

/-- A part of an extraction that creates nothing outside `base`; it starts with the directories
on the way to `p` and ends with those on the way to `p'`. -/
def Stays (v : Volume) (base : List Name) (p p' : HostPath) (m : Extract.ExtractM Unit) : Prop :=
  ∀ s, v.Like s.vol → s.host.Within base → s.host.Ready p → match m s with
    | .ok _ s' => v.Like s'.vol ∧ s'.host.Within base ∧ s'.host.Ready p'
    | .error _ s' => s'.host.Within base

namespace Stays

variable {v : Volume} {base : List Name} {p p' p'' : HostPath}

theorem seq {m k : Extract.ExtractM Unit} (hm : Stays v base p p' m) (hk : Stays v base p' p'' k) :
    Stays v base p p'' (do m; k) := by
  intro s hs hw hp
  have hm := hm s hs hw hp
  rcases hrun : m s with ⟨_, s'⟩ | ⟨f, s'⟩
  · rw [hrun] at hm
    rw [bind_of_ok hrun]
    exact hk s' hm.1 hm.2.1 hm.2.2
  · rw [hrun] at hm
    rw [bind_of_error hrun]
    exact hm

theorem ask {α : Type} {m : VolumeM α} {k : α → Extract.ExtractM Unit} (hm : Steady v.Like m)
    (hv : v.Opened) (hk : ∀ a, v.answer m = .ok a → Stays v base p p' (k a)) :
    Stays v base p p' (Extract.ask m >>= k) := by
  obtain ⟨r, hr⟩ := hm
  intro s hs hw hp
  cases r with
  | error e =>
      obtain ⟨v', hrun, -⟩ := hr.raise hs
      have hask : Extract.ask m s = .error (.fault (.err e)) { s with vol := v' } := by
        simp only [Extract.ask, hrun]
      rw [bind_of_error hask]
      exact hw
  | ok a =>
      obtain ⟨b, v₀, hv₀, hb, -⟩ := hr.ok hv.like
      obtain ⟨c, v', hrun, hc, hv'⟩ := hr.ok hs
      rw [hb] at hv₀
      rw [hc] at hrun
      have hask : Extract.ask m s = .ok a { s with vol := v' } := by
        simp only [Extract.ask, hrun]
      rw [bind_of_ok hask]
      exact hk a (by simp only [Volume.answer, hv₀]) _ hv' hw hp

theorem forM {ι : Type} {f : ι → Extract.ExtractM Unit} (l : List ι)
    (h : ∀ i ∈ l, Stays v base p p (f i)) : Stays v base p p (l.forM f) := by
  induction l with
  | nil => exact fun _ hs hw hp => ⟨hs, hw, hp⟩
  | cons i l ih =>
      exact (h i List.mem_cons_self).seq (ih fun j hj => h j (List.mem_cons_of_mem i hj))

/-- Making a directory whose missing ancestors lie in `base`. -/
theorem createDirAll (hbase : ∀ q, q <+: p' → q <+: p ∨ base <+: HostPath.resolve q) :
    Stays v base p p' (Extract.createDirAll p') := by
  intro s hs hw hp
  obtain ⟨hw', hok⟩ := Host.createDirAll_spec
    (fun q hq => (hbase q hq).imp_left (hp q)) hw
  unfold Extract.createDirAll
  rcases hrun : s.host.createDirAll p' with ⟨host, f | ⟨⟩⟩
  · rw [hrun] at hw'
    exact hw'
  · rw [hrun] at hw' hok
    exact ⟨hs, hw', hok rfl⟩

/-- Writing a file that lies in `base`, unless its place is a directory. -/
theorem write {q : HostPath}
    (hbase : ∀ host : Host, host.Ready p → host.dirs (HostPath.resolve q) = true ∨
      base <+: HostPath.resolve q) : Stays v base p p (Extract.write q) := by
  intro s hs hw hp
  unfold Extract.write
  rcases hrun : s.host.write q with f | host
  · exact hw
  · obtain ⟨hw', hdirs⟩ := Host.write_spec hrun (hbase _ hp) hw
    refine ⟨hs, hw', fun r hr => ?_⟩
    have hdir := hp r hr
    rw [← hdirs] at hdir
    exact hdir

end Stays

end Pfs3
