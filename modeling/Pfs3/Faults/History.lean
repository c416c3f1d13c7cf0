import Pfs3.Faults.Uncommitted
import Pfs3.Tree.FileTree

/-!
# Histories

A volume is opened, written to and opened again, and a session may end in the middle of a call.
What counts are the calls that were committed: the volume is the file system of their run.
-/

namespace Pfs3

open ByteList Stop Store

namespace Store

/-- What a writer stands for that is opened on the device. -/
def reopen (clock : ℕ → Datestamp) (S : Store) : Store :=
  .opened S.geo S.disk S.root S.data clock

variable {S : Store} {T : Owners} {fs : FileSystem} {clock : ℕ → Datestamp}

theorem Settled.reopen (h : S.Settled T) : (S.reopen clock).Settled T := by
  obtain ⟨hblocks, hreserved, hres⟩ := h.counters
  exact h.of_eq rfl rfl h.disk hres hblocks hreserved rfl

theorem Shows.reopen (hs : S.Shows T fs) (h : S.Settled T) : (S.reopen clock).Shows T fs :=
  hs.congr h.disk rfl

end Store

/-- A writer and the store that it stands for, from one state to another; the calls are those that
were committed. -/
inductive History : Writer → Store → List Call → Writer → Store → Prop
  | done {w : Writer} {S : Store} : History w S [] w S
  | call {w w₁ w' : Writer} {S S₁ S' : Store} {c : Call} {calls : List Call}
      (run : c.run w = .ok () w₁) (spec : c.spec S = .ok () S₁) (affords : S.Affords c)
      (proper : S.Proper c) (rest : History w₁ S₁ calls w' S') : History w S (c :: calls) w' S'
  | remount {w w₁ w' : Writer} {S S' : Store} {calls : List Call} {v : Volume}
      {clock : ℕ → Datestamp} (volume : Volume.fromDevice w.vol.dev = .ok v)
      (writer : Writer.open v clock = .ok w₁) (rest : History w₁ (S.reopen clock) calls w' S') :
      History w S calls w' S'
  /-- A preparation has written some of its sectors when the session ends. -/
  | cut {w w₁ w' : Writer} {S S' : Store} {calls : List Call} {v : Volume}
      {clock : ℕ → Datestamp} {e : Writer.Edit} {ws : List (ℕ × Sector)} (k : ℕ)
      (writes : (leaves (e.prepare w)).vol.dev = w.vol.dev.puts ws)
      (volume : Volume.fromDevice (w.vol.dev.puts (ws.take k)) = .ok v)
      (writer : Writer.open v clock = .ok w₁)
      (rest : History w₁ ({ S with data := (w.vol.dev.puts (ws.take k)).sectors }.reopen clock)
        calls w' S') : History w S calls w' S'

namespace History

variable {g : Geometry} {w w' : Writer} {S S' : Store} {T : Owners} {fs : FileSystem}
  {calls : List Call}

end History

/-- What follows a history. -/
theorem History.trans {w w₁ w' : Writer} {S S₁ S' : Store} {calls later : List Call}
    (h : History w S calls w₁ S₁) (h' : History w₁ S₁ later w' S') :
    History w S (calls ++ later) w' S' := by
  induction h with
  | done => exact h'
  | call run spec affords proper _ ih => exact .call run spec affords proper (ih h')
  | remount volume writer _ ih => exact .remount volume writer (ih h')
  | cut k writes volume writer _ ih => exact .cut k writes volume writer (ih h')

end Pfs3
