import Mathlib.Data.List.Basic

/-!
# Batches of a fixed size

A list is cut into batches as its items come in: a batch goes out when it is
full, and the last one goes out as it is.
-/
namespace RustExtensions.Batches

variable {α : Type} {n : Nat} {part rest l m : List α} {bs : List (List α)}

/-- The full batches, and the batch that is left open at the end. -/
def fill (n : Nat) (part : List α) : List α → List (List α) × List α
  | [] => ([], part)
  | x :: l =>
    if n ≤ (part ++ [x]).length then
      ((part ++ [x]) :: (fill n [] l).1, (fill n [] l).2)
    else fill n (part ++ [x]) l

/-- No batch is empty or too long, and only the last one may be short. -/
structure Batched (n : Nat) (bs : List (List α)) : Prop where
  nonempty : ∀ b ∈ bs, b ≠ []
  bounded : ∀ b ∈ bs, b.length ≤ n
  full : ∀ b ∈ bs.dropLast, b.length = n

/-- What goes out when the open batch is sent at the end, if it has items. -/
def close (r : List (List α) × List α) : List (List α) :=
  if r.2.isEmpty then r.1 else r.1 ++ [r.2]

theorem fill_append (part l m : List α) :
    fill n part (l ++ m) =
      ((fill n part l).1 ++ (fill n (fill n part l).2 m).1, (fill n (fill n part l).2 m).2) := by
  induction l generalizing part with
  | nil => simp [fill]
  | cons x l ih =>
    simp only [List.cons_append, fill]
    split
    · rw [ih []]
      simp
    · rw [ih (part ++ [x])]

/-- No item is lost, none is moved. -/
theorem flatten_fill (part l : List α) :
    (fill n part l).1.flatten ++ (fill n part l).2 = part ++ l := by
  induction l generalizing part with
  | nil => simp [fill]
  | cons x l ih =>
    simp only [fill]
    split
    · rw [List.flatten_cons, List.append_assoc, ih []]
      simp
    · rw [ih (part ++ [x])]
      simp

theorem length_fill_rest (hn : 0 < n) (hpart : part.length < n) :
    (fill n part l).2.length < n := by
  have hnil : ([] : List α).length < n := hn
  induction l generalizing part with
  | nil => simpa [fill] using hpart
  | cons x l ih =>
    simp only [fill]
    split
    · exact ih hnil
    · next hlt => exact ih (Nat.lt_of_not_le hlt)

theorem length_of_mem_fill (hn : 0 < n) (hpart : part.length < n) :
    ∀ b ∈ (fill n part l).1, b.length = n := by
  have hnil : ([] : List α).length < n := hn
  induction l generalizing part with
  | nil => simp [fill]
  | cons x l ih =>
    simp only [fill]
    split
    · next hle =>
      intro b hb
      rcases List.mem_cons.mp hb with rfl | hb
      · rw [List.length_append, List.length_singleton] at hle ⊢
        omega
      · exact ih hnil b hb
    · next hlt => exact ih (Nat.lt_of_not_le hlt)

/-- A batch that does not get full stays open. -/
theorem fill_of_length_lt (h : (part ++ l).length < n) : fill n part l = ([], part ++ l) := by
  induction l generalizing part with
  | nil => simp [fill]
  | cons x l ih =>
    have hstep : (part ++ [x] ++ l).length < n := by simpa [Nat.add_assoc, Nat.add_comm 1] using h
    have hx : ¬n ≤ (part ++ [x]).length := by
      rw [List.length_append] at hstep
      omega
    rw [fill, if_neg hx, ih hstep]
    simp

/-- The item that fills a batch sends it out. -/
theorem fill_of_length_eq (hne : l ≠ []) (h : (part ++ l).length = n) :
    fill n part l = ([part ++ l], []) := by
  obtain ⟨k, x, rfl⟩ := l.eq_nil_or_concat'.resolve_left hne
  have hlt : (part ++ k).length < n := by
    simp only [List.length_append, List.length_singleton] at h ⊢
    omega
  have hx : n ≤ (part ++ k ++ [x]).length := by
    rw [List.append_assoc]
    exact Nat.le_of_eq h.symm
  rw [fill_append, fill_of_length_lt hlt, fill, if_pos hx]
  simp [fill]

/-- The full batches and the open one are the only way to cut the list so. -/
theorem fill_eq_of_flatten (hn : 0 < n) (hbs : ∀ b ∈ bs, b.length = n) (hrest : rest.length < n) :
    fill n [] (bs.flatten ++ rest) = (bs, rest) := by
  induction bs with
  | nil => exact fill_of_length_lt hrest
  | cons b bs ih =>
    have hb : b.length = n := hbs b List.mem_cons_self
    have hne : b ≠ [] := List.ne_nil_of_length_pos (hb ▸ hn)
    have hfill : fill n [] b = ([b], []) := fill_of_length_eq hne hb
    rw [List.flatten_cons, List.append_assoc, fill_append, hfill,
      ih fun c hc => hbs c (List.mem_cons_of_mem b hc)]
    simp

theorem length_flatten_of_full (hbs : ∀ b ∈ bs, b.length = n) :
    bs.flatten.length = bs.length * n := by
  rw [List.length_flatten, List.map_congr_left hbs]
  simp

/-- Up to the last multiple of the size nothing stays open. -/
theorem fill_take (hn : 0 < n) (l : List α) :
    fill n [] (l.take (l.length / n * n)) = ((fill n [] l).1, []) := by
  have hbs : ∀ b ∈ (fill n [] l).1, b.length = n := length_of_mem_fill hn hn
  have hrest : (fill n [] l).2.length < n := length_fill_rest hn hn
  have hflat := flatten_fill (n := n) [] l
  have hlen := length_flatten_of_full hbs
  generalize fill n [] l = r at hbs hrest hflat hlen ⊢
  have hcount : l.length / n = r.1.length := by
    rw [← List.nil_append l, ← hflat, List.length_append, hlen, Nat.mul_comm,
      Nat.mul_add_div hn, Nat.div_eq_of_lt hrest, Nat.add_zero]
  have htake : l.take (l.length / n * n) = r.1.flatten := by
    rw [hcount, ← hlen, ← List.nil_append l, ← hflat, List.take_left]
  rw [htake, ← List.append_nil r.1.flatten]
  exact fill_eq_of_flatten hn hbs hn

theorem flatten_close (part l : List α) : (close (fill n part l)).flatten = part ++ l := by
  rw [← flatten_fill (n := n) part l, close]
  split
  · next h => rw [List.isEmpty_iff.mp h, List.append_nil]
  · simp

theorem batched_close (hn : 0 < n) (l : List α) : Batched n (close (fill n [] l)) := by
  have hbs : ∀ b ∈ (fill n [] l).1, b.length = n := length_of_mem_fill hn hn
  have hrest : (fill n [] l).2.length < n := length_fill_rest hn hn
  generalize fill n [] l = r at hbs hrest
  have hne : ∀ b ∈ r.1, b ≠ [] := fun b hb => List.ne_nil_of_length_pos (hbs b hb ▸ hn)
  rw [close]
  split
  · exact ⟨hne, fun b hb => Nat.le_of_eq (hbs b hb), fun b hb => hbs b (List.dropLast_subset _ hb)⟩
  · next hopen =>
    have hopen : r.2 ≠ [] := fun h => hopen (List.isEmpty_iff.mpr h)
    refine ⟨fun b hb => ?_, fun b hb => ?_, fun b hb => hbs b ?_⟩
    · rcases List.mem_append.mp hb with hb | hb
      · exact hne b hb
      · exact List.mem_singleton.mp hb ▸ hopen
    · rcases List.mem_append.mp hb with hb | hb
      · exact Nat.le_of_eq (hbs b hb)
      · exact List.mem_singleton.mp hb ▸ Nat.le_of_lt hrest
    · rwa [List.dropLast_concat] at hb

end RustExtensions.Batches
