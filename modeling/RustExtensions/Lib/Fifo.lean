import Mathlib.Data.List.Basic

/-!
# A named pipe

What is written waits in the pipe until it is read. The kernel keeps it only as
long as somebody holds an end: the last one to close takes it away. A writer
needs a reader, both to open and to write; a reader is at the end of the input
when nothing is left and nobody can write.
-/
namespace RustExtensions.NamedPipe

variable {α : Type}

/-- The ends that are open are counted; a descriptor for both directions is one of each. -/
structure Fifo (α : Type) where
  buffer : List α := []
  readers : Nat := 0
  writers : Nat := 0

namespace Fifo

variable (f : Fifo α)

def Abandoned : Prop := f.readers = 0 ∧ f.writers = 0

instance : Decidable f.Abandoned := inferInstanceAs (Decidable (_ ∧ _))

/-- Nothing is kept for nobody. -/
def settle : Fifo α := if f.Abandoned then { f with buffer := [] } else f

def openRead : Fifo α := { f with readers := f.readers + 1 }

/-- Opening for both directions waits for nobody. -/
def openBoth : Fifo α := { f with readers := f.readers + 1, writers := f.writers + 1 }

/-- Without a reader an open that does not wait fails. -/
def openWrite : Option (Fifo α) :=
  if 0 < f.readers then some { f with writers := f.writers + 1 } else none

def closeRead : Fifo α := { f with readers := f.readers - 1 }.settle

def closeWrite : Fifo α := { f with writers := f.writers - 1 }.settle

def closeBoth : Fifo α := { f with readers := f.readers - 1, writers := f.writers - 1 }.settle

/-- What fits is written, if there is a reader. -/
def write (capacity : Nat) (xs : List α) : Option (Fifo α) :=
  if 0 < f.readers ∧ f.buffer.length + xs.length ≤ capacity then
    some { f with buffer := f.buffer ++ xs }
  else none

/-- A read of at most `n` gives what there is, and waits if there is nothing. -/
def read (n : Nat) : Option (List α × Fifo α) :=
  if n = 0 ∨ f.buffer = [] then none
  else some (f.buffer.take n, { f with buffer := f.buffer.drop n })

def AtEnd : Prop := f.buffer = [] ∧ f.writers = 0

instance : Decidable f.AtEnd :=
  decidable_of_iff (f.buffer.isEmpty = true ∧ f.writers = 0) (by rw [AtEnd, List.isEmpty_iff])

variable {f} {g : Fifo α} {xs : List α} {capacity n : Nat}

@[simp] theorem settle_readers : f.settle.readers = f.readers := by
  unfold settle
  split <;> rfl

@[simp] theorem settle_writers : f.settle.writers = f.writers := by
  unfold settle
  split <;> rfl

theorem settle_of_held (h : 0 < f.readers ∨ 0 < f.writers) : f.settle.buffer = f.buffer := by
  rw [settle, if_neg]
  rintro ⟨hreaders, hwriters⟩
  omega

theorem settle_of_abandoned (h : f.Abandoned) : f.settle.buffer = [] := by
  rw [settle, if_pos h]

@[simp] theorem closeRead_readers : f.closeRead.readers = f.readers - 1 := settle_readers

@[simp] theorem closeRead_writers : f.closeRead.writers = f.writers := settle_writers

@[simp] theorem closeWrite_readers : f.closeWrite.readers = f.readers := settle_readers

@[simp] theorem closeWrite_writers : f.closeWrite.writers = f.writers - 1 := settle_writers

@[simp] theorem closeBoth_readers : f.closeBoth.readers = f.readers - 1 := settle_readers

@[simp] theorem closeBoth_writers : f.closeBoth.writers = f.writers - 1 := settle_writers

/-- What is in the pipe stays there when a writer goes and a reader stays. -/
theorem closeWrite_buffer (h : 0 < f.readers) : f.closeWrite.buffer = f.buffer :=
  settle_of_held (f := { f with writers := f.writers - 1 }) (.inl h)

theorem closeRead_buffer (h : 1 < f.readers ∨ 0 < f.writers) : f.closeRead.buffer = f.buffer :=
  settle_of_held (f := { f with readers := f.readers - 1 }) (h.imp_left Nat.sub_pos_of_lt)

theorem closeRead_buffer_nil (h : f.buffer = []) : f.closeRead.buffer = [] := by
  unfold closeRead settle
  split
  · rfl
  · exact h

theorem closeBoth_buffer (h : 1 < f.readers) : f.closeBoth.buffer = f.buffer :=
  settle_of_held (f := { f with readers := f.readers - 1, writers := f.writers - 1 })
    (.inl (Nat.sub_pos_of_lt h))

theorem openWrite_eq_some : f.openWrite = some g ↔
    0 < f.readers ∧ { f with writers := f.writers + 1 } = g := by
  rw [openWrite, Option.ite_none_right_eq_some, Option.some_inj]

theorem write_eq_some : f.write capacity xs = some g ↔
    (0 < f.readers ∧ f.buffer.length + xs.length ≤ capacity) ∧
      { f with buffer := f.buffer ++ xs } = g := by
  rw [write, Option.ite_none_right_eq_some, Option.some_inj]

/-- A read takes the front of what is in the pipe. -/
theorem read_eq_some (h : f.read n = some (xs, g)) :
    xs ≠ [] ∧ xs.length ≤ n ∧ g = { f with buffer := g.buffer } ∧ f.buffer = xs ++ g.buffer := by
  obtain ⟨hne, heq⟩ := Option.ite_none_left_eq_some.mp h
  obtain ⟨rfl, rfl⟩ := Prod.mk.inj (Option.some.inj heq)
  obtain ⟨hn, hbuffer⟩ := not_or.mp hne
  refine ⟨?_, List.length_take_le n f.buffer, rfl, (List.take_append_drop n f.buffer).symm⟩
  simpa [List.take_eq_nil_iff] using ⟨hn, hbuffer⟩

theorem exists_read (hn : n ≠ 0) (h : f.buffer ≠ []) : ∃ xs g, f.read n = some (xs, g) :=
  ⟨_, _, if_neg (not_or.mpr ⟨hn, h⟩)⟩

end Fifo
end RustExtensions.NamedPipe
