import AssuranceLayer.Interleaving
import AssuranceLayer.SortedMap

set_option autoImplicit false

/-!
A directory of files. A name stands for a file, no two names for one; who has opened a file writes to
it under whatever name it has come to stand, and a renamed file keeps its contents.
-/
namespace AssuranceLayer

structure Directory where
  names : SortedMap String ℕ
  contents : ℕ → List UInt8
  /-- Files from here on have not been created. -/
  next : ℕ
  created : ∀ name file, names.get? name = some file → file < next
  distinct : ∀ name name' file, names.get? name = some file → names.get? name' = some file → name = name'

namespace Directory
open SortedMap
variable {d e : Directory} {name other source target : String} {file : ℕ}

def empty : Directory where
  names := SortedMap.empty
  contents _ := []
  next := 0
  created _ _ h := by cases h
  distinct _ _ _ h := by cases h

def read (d : Directory) (name : String) : Option (List UInt8) := (d.names.get? name).map d.contents

/-- Opens the file under the name for writing and empties it, creating it unless there is one. -/
def create (d : Directory) (name : String) : ℕ × Directory :=
  match h : d.names.get? name with
  | some file => (file, { d with contents := Function.update d.contents file [] })
  | none => (d.next,
      { names := d.names.insert name d.next
        contents := Function.update d.contents d.next []
        next := d.next + 1
        created := fun other file hother => by
          rw [get?_insert] at hother
          split at hother
          · cases hother
            exact Nat.lt_succ_self _
          · exact Nat.lt_succ_of_lt (d.created other file hother)
        distinct := fun other other' file hother hother' => by
          rw [get?_insert] at hother hother'
          split at hother <;> split at hother'
          · rename_i heq heq'
            exact heq.symm.trans heq'
          · cases hother
            exact absurd (d.created other' _ hother') (lt_irrefl _)
          · cases hother'
            exact absurd (d.created other _ hother) (lt_irrefl _)
          · exact d.distinct other other' file hother hother' })

/-- Writes at a place of an open file. -/
def write (d : Directory) (file place : ℕ) (bytes : List UInt8) : Directory :=
  let old := d.contents file
  let written := old.takeD place 0 ++ bytes ++ old.drop (place + bytes.length)
  { d with contents := Function.update d.contents file written }

/-- The file under the one name stands under the other, in place of what stood there. -/
def rename (d : Directory) (source target : String) : Option Directory :=
  match h : d.names.get? source with
  | none => none
  | some file => some { d with
      names := (d.names.erase source).insert target file
      created := fun other _ hother => by
        rw [get?_insert] at hother
        split at hother
        · cases hother
          exact d.created source file h
        · exact d.created other _ (get?_erase_eq_some.mp hother).2
      distinct := fun other other' _ hother hother' => by
        rw [get?_insert] at hother hother'
        split at hother <;> split at hother'
        · rename_i heq heq'
          exact heq.symm.trans heq'
        · cases hother
          obtain ⟨hne, hget⟩ := get?_erase_eq_some.mp hother'
          exact absurd (d.distinct _ _ _ hget h) hne
        · cases hother'
          obtain ⟨hne, hget⟩ := get?_erase_eq_some.mp hother
          exact absurd (d.distinct _ _ _ hget h) hne
        · exact d.distinct _ _ _ (get?_erase_eq_some.mp hother).2 (get?_erase_eq_some.mp hother').2 }

theorem create_names (d : Directory) (name other : String) : (d.create name).2.names.get? other =
    if name = other then some (d.create name).1 else d.names.get? other := by
  unfold create
  split
  · split
    · subst other
      assumption
    · rfl
  · exact get?_insert _ _ _ _

theorem create_contents (d : Directory) (name : String) :
    (d.create name).2.contents (d.create name).1 = [] := by
  unfold create
  split <;> exact Function.update_self _ _ _

theorem create_contents_of_ne (hother : d.names.get? other = some file) (hne : other ≠ name) :
    (d.create name).2.contents file = d.contents file := by
  unfold create
  split
  · refine Function.update_of_ne (fun heq => hne ?_) _ _
    subst heq
    exact d.distinct _ _ _ hother ‹_›
  · exact Function.update_of_ne (d.created other file hother).ne _ _

theorem rename_names (h : d.names.get? source = some file) (target : String) :
    ∃ e, d.rename source target = some e ∧ e.contents = d.contents ∧ ∀ other, e.names.get? other =
      if target = other then some file else if source = other then none else d.names.get? other := by
  unfold rename
  split
  · rename_i hnone
    exact absurd (hnone.symm.trans h) (by simp)
  · rename_i found hfound
    obtain rfl : found = file := Option.some.inj (hfound.symm.trans h)
    exact ⟨_, rfl, rfl, fun other => by rw [get?_insert, get?_erase]⟩

/-- The name stands for what it stood for, with the contents it had. -/
structure Keeps (name : String) (d e : Directory) : Prop where
  names : e.names.get? name = d.names.get? name
  contents : ∀ file, d.names.get? name = some file → e.contents file = d.contents file

theorem Keeps.read (h : Keeps name d e) : e.read name = d.read name := by
  rw [Directory.read, Directory.read, h.names]
  cases hfile : d.names.get? name with
  | none => rfl
  | some file => rw [Option.map_some, Option.map_some, h.contents file hfile]

instance : IsPreorder Directory (Keeps name) where
  refl _ := ⟨rfl, fun _ _ => rfl⟩
  trans _ _ _ hde hef := ⟨hef.names.trans hde.names, fun file hfile =>
    (hef.contents file (hde.names.trans hfile)).trans (hde.contents file hfile)⟩

theorem create_keeps (hne : name ≠ other) : Keeps name d (d.create other).2 where
  names := by rw [create_names, if_neg hne.symm]
  contents _ hfile := create_contents_of_ne hfile hne

theorem write_keeps (hother : d.names.get? other = some file) (hne : name ≠ other) (place : ℕ)
    (bytes : List UInt8) : Keeps name d (d.write file place bytes) where
  names := rfl
  contents found hfound := by
    refine Function.update_of_ne (fun heq => hne ?_) _ _
    subst heq
    exact d.distinct _ _ _ hfound hother

theorem rename_keeps (h : d.rename source target = some e) (hsource : name ≠ source) (htarget : name ≠ target) :
    Keeps name d e := by
  cases hfile : d.names.get? source with
  | none =>
    unfold rename at h
    split at h
    · cases h
    · rename_i hsome
      exact absurd (hfile.symm.trans hsome) (by simp)
  | some file =>
    obtain ⟨_, hrename, hcontents, hnames⟩ := rename_names hfile target
    cases h.symm.trans hrename
    exact ⟨by rw [hnames, if_neg htarget.symm, if_neg hsource.symm], fun _ _ => by rw [hcontents]⟩

/-- Writing on where the contents end. -/
theorem write_end {bytes : List UInt8} (h : d.contents file = bytes) (more : List UInt8) :
    (d.write file bytes.length more).contents file = bytes ++ more := by
  have hdrop : bytes.drop (bytes.length + more.length) = [] := List.drop_eq_nil_of_le (Nat.le_add_right _ _)
  refine (Function.update_self _ _ _).trans ?_
  rw [h, hdrop, List.append_nil, List.takeD_eq_take _ le_rfl, List.take_length]

end Directory
end AssuranceLayer
