import Mathlib.Logic.Function.Basic

/-!
# Names and files

A directory maps names to files. A file is there for those who have it open
whatever happens to its name, so that a name can be given to another file
without a reader noticing. There are no hard links.
-/
namespace RustExtensions.Inodes

variable {ν β : Type}

/-- Files are numbered as they are made. -/
structure Directory (ν β : Type) where
  entry : ν → Option Nat := fun _ => none
  content : Nat → List β := fun _ => []
  fresh : Nat := 0

namespace Directory

section Operations
variable (d : Directory ν β)

/-- The content of the file of that name. -/
def lookup (n : ν) : Option (List β) := (d.entry n).map d.content

def append (ino : Nat) (xs : List β) : Directory ν β :=
  { d with content := Function.update d.content ino (d.content ino ++ xs) }

variable [DecidableEq ν]

/-- An empty file under a name that must not exist. -/
def createNew (n : ν) : Option (Directory ν β) :=
  if d.entry n = none then
    some { entry := Function.update d.entry n (some d.fresh)
           content := Function.update d.content d.fresh []
           fresh := d.fresh + 1 }
  else none

/-- The file of `n` under the name `m`, in one step, and whatever `m` was is gone. -/
def rename (n m : ν) : Directory ν β :=
  { d with entry := Function.update (Function.update d.entry n none) m (d.entry n) }

def unlink (n : ν) : Directory ν β := { d with entry := Function.update d.entry n none }

end Operations

variable {d e : Directory ν β} {n m : ν} {ino ino' : Nat} {xs : List β}

/-- Every name is that of a file of its own. -/
structure Sound (d : Directory ν β) : Prop where
  made : ∀ n ino, d.entry n = some ino → ino < d.fresh
  apart : ∀ n m ino, d.entry n = some ino → d.entry m = some ino → n = m

@[simp] theorem append_entry : (d.append ino xs).entry = d.entry := rfl

@[simp] theorem append_fresh : (d.append ino xs).fresh = d.fresh := rfl

@[simp] theorem append_content_self : (d.append ino xs).content ino = d.content ino ++ xs :=
  Function.update_self ..

theorem append_content_of_ne (h : ino' ≠ ino) : (d.append ino xs).content ino' = d.content ino' :=
  Function.update_of_ne h ..

theorem Sound.append (hd : d.Sound) : (d.append ino xs).Sound := ⟨hd.made, hd.apart⟩

variable [DecidableEq ν]

theorem createNew_eq_some : d.createNew n = some e ↔ d.entry n = none ∧
    { entry := Function.update d.entry n (some d.fresh)
      content := Function.update d.content d.fresh []
      fresh := d.fresh + 1 } = e := by
  rw [createNew, Option.ite_none_right_eq_some, Option.some_inj]

@[simp] theorem rename_content : (d.rename n m).content = d.content := rfl

@[simp] theorem rename_fresh : (d.rename n m).fresh = d.fresh := rfl

@[simp] theorem rename_entry_self : (d.rename n m).entry m = d.entry n := Function.update_self ..

theorem rename_entry_old (h : n ≠ m) : (d.rename n m).entry n = none := by
  simp [rename, h]

theorem rename_entry_of_ne {k : ν} (hn : k ≠ n) (hm : k ≠ m) :
    (d.rename n m).entry k = d.entry k := by
  simp [rename, hn, hm]

@[simp] theorem unlink_content : (d.unlink n).content = d.content := rfl

@[simp] theorem unlink_fresh : (d.unlink n).fresh = d.fresh := rfl

@[simp] theorem unlink_entry_self : (d.unlink n).entry n = none := Function.update_self ..

theorem unlink_entry_of_ne (h : m ≠ n) : (d.unlink n).entry m = d.entry m :=
  Function.update_of_ne h ..

theorem entry_of_unlink (h : (d.unlink n).entry m = some ino) : m ≠ n ∧ d.entry m = some ino := by
  by_cases hm : m = n
  · rw [hm, unlink_entry_self] at h
    cases h
  · exact ⟨hm, unlink_entry_of_ne hm ▸ h⟩

/-- A name after a renaming is the new one, or another that was there. -/
theorem entry_of_rename {k : ν} (h : (d.rename n m).entry k = some ino) :
    k = m ∧ d.entry n = some ino ∨ k ≠ m ∧ k ≠ n ∧ d.entry k = some ino := by
  by_cases hm : k = m
  · rw [hm, rename_entry_self] at h
    exact .inl ⟨hm, h⟩
  · by_cases hn : k = n
    · rw [hn, rename_entry_old (hn ▸ hm)] at h
      cases h
    · exact .inr ⟨hm, hn, rename_entry_of_ne hn hm ▸ h⟩

theorem Sound.createNew (hd : d.Sound) (h : d.createNew n = some e) : e.Sound := by
  obtain ⟨-, rfl⟩ := createNew_eq_some.mp h
  have hcases {k : ν} {ino : Nat}
      (hk : Function.update d.entry n (some d.fresh) k = some ino) :
      k = n ∧ ino = d.fresh ∨ d.entry k = some ino := by
    by_cases hkn : k = n
    · rw [hkn, Function.update_self] at hk
      exact .inl ⟨hkn, (Option.some.inj hk).symm⟩
    · rw [Function.update_of_ne hkn] at hk
      exact .inr hk
  constructor
  · intro k ino hk
    obtain ⟨-, rfl⟩ | hk := hcases hk
    · exact Nat.lt_succ_self _
    · exact Nat.lt_succ_of_lt (hd.made k ino hk)
  · intro k l ino hk hl
    obtain ⟨hkn, hino⟩ | hk := hcases hk
    · obtain ⟨hln, -⟩ | hl := hcases hl
      · rw [hkn, hln]
      · exact absurd (hd.made l ino hl) (hino ▸ Nat.lt_irrefl _)
    · obtain ⟨-, hino⟩ | hl := hcases hl
      · exact absurd (hd.made k ino hk) (hino ▸ Nat.lt_irrefl _)
      · exact hd.apart k l ino hk hl

theorem Sound.rename (hd : d.Sound) : (d.rename n m).Sound := by
  constructor
  · intro k ino hk
    obtain ⟨-, hk⟩ | ⟨-, -, hk⟩ := entry_of_rename hk
    · exact hd.made n ino hk
    · exact hd.made k ino hk
  · intro k l ino hk hl
    obtain ⟨hkm, hk⟩ | ⟨-, hkn, hk⟩ := entry_of_rename hk
    · obtain ⟨hlm, -⟩ | ⟨-, hln, hl⟩ := entry_of_rename hl
      · rw [hkm, hlm]
      · exact absurd (hd.apart l n ino hl hk) hln
    · obtain ⟨-, hl⟩ | ⟨-, -, hl⟩ := entry_of_rename hl
      · exact absurd (hd.apart k n ino hk hl) hkn
      · exact hd.apart k l ino hk hl

theorem Sound.unlink (hd : d.Sound) : (d.unlink n).Sound :=
  ⟨fun k ino hk => hd.made k ino (entry_of_unlink hk).2,
    fun k l ino hk hl => hd.apart k l ino (entry_of_unlink hk).2 (entry_of_unlink hl).2⟩

end Directory
end RustExtensions.Inodes
