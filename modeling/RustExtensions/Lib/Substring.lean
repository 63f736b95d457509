import Mathlib.Data.List.Infix

/-!
# Patterns in a list

A list is split at the first place where a pattern occurs, or rid of a pattern
with which it begins, as often as it begins with it.
-/
namespace RustExtensions.Substring

variable {α : Type} [DecidableEq α] {pat l a b w r : List α} {c x : α} {n m : Nat}

/-! ## The first occurrence -/

/-- What stands before the first occurrence of a pattern, and what stands after it. -/
def splitOnce (pat : List α) : List α → Option (List α × List α)
  | [] => if pat = [] then some ([], []) else none
  | x :: l =>
    if pat <+: x :: l then some ([], (x :: l).drop pat.length)
    else (splitOnce pat l).map fun r => (x :: r.1, r.2)

theorem splitOnce_cons_of_not (h : ¬pat <+: x :: l) :
    splitOnce pat (x :: l) = (splitOnce pat l).map fun r => (x :: r.1, r.2) := by
  rw [splitOnce, if_neg h]

theorem splitOnce_append (pat l : List α) : splitOnce pat (pat ++ l) = some ([], l) := by
  cases h : pat ++ l with
  | nil =>
    obtain ⟨rfl, rfl⟩ := List.append_eq_nil_iff.mp h
    rfl
  | cons x m =>
    have hpre : pat <+: x :: m := h ▸ List.prefix_append pat l
    rw [splitOnce, if_pos hpre, ← h, List.drop_left]

theorem eq_of_splitOnce (h : splitOnce pat l = some (a, b)) : l = a ++ (pat ++ b) := by
  induction l generalizing a with
  | nil =>
    rw [splitOnce] at h
    split at h
    · next hnil =>
      cases h
      rw [hnil]
      rfl
    · cases h
  | cons x l ih =>
    rw [splitOnce] at h
    split at h
    · next hpre =>
      cases h
      exact (List.prefix_iff_eq_append.mp hpre).symm
    · obtain ⟨r, hr, heq⟩ := Option.map_eq_some_iff.mp h
      cases heq
      rw [ih hr]
      rfl

/-- What comes behind an occurrence is shorter than the list. -/
theorem length_lt_of_splitOnce (hpat : pat ≠ []) (h : splitOnce pat l = some (a, b)) :
    b.length < l.length := by
  have hpos := List.length_pos_of_ne_nil hpat
  rw [eq_of_splitOnce h, List.length_append, List.length_append]
  omega

/-- No occurrence begins where the first element of the pattern is missing. -/
theorem splitOnce_append_of_not_mem (h : c ∉ w) :
    splitOnce (c :: pat) (w ++ l) = (splitOnce (c :: pat) l).map fun r => (w ++ r.1, r.2) := by
  induction w with
  | nil => simp
  | cons x w ih =>
    have hne : ¬c :: pat <+: x :: (w ++ l) := fun hpre =>
      h ((List.cons_prefix_cons.mp hpre).1 ▸ List.mem_cons_self)
    rw [List.cons_append, splitOnce_cons_of_not hne, ih fun hc => h (List.mem_cons_of_mem x hc),
      Option.map_map]
    rfl

/-- The first occurrence of one element has none before it. -/
theorem splitOnce_singleton : splitOnce [c] l = some (a, b) ↔ c ∉ a ∧ l = a ++ c :: b := by
  constructor
  · intro h
    refine ⟨?_, eq_of_splitOnce h⟩
    induction l generalizing a with
    | nil => cases h
    | cons x l ih =>
      rw [splitOnce] at h
      split at h
      · cases h
        exact List.not_mem_nil
      · next hpre =>
        obtain ⟨r, hr, heq⟩ := Option.map_eq_some_iff.mp h
        cases heq
        have hne : c ≠ x := by
          intro heq
          subst heq
          exact hpre (List.prefix_append [c] l)
        exact List.not_mem_cons_of_ne_of_not_mem hne (ih hr)
  · intro h
    obtain ⟨ha, rfl⟩ := h
    have hsplit : splitOnce [c] (c :: b) = some ([], b) := splitOnce_append [c] b
    rw [splitOnce_append_of_not_mem ha, hsplit, Option.map_some, List.append_nil]

omit [DecidableEq α] in
/-- A word is found before its separator only as a whole. -/
theorem append_singleton_prefix (ha : c ∉ a) (hw : c ∉ w) : a ++ [c] <+: w ++ c :: l ↔ a = w := by
  constructor
  · intro h
    obtain ⟨t, ht⟩ := h
    rw [List.append_assoc, List.singleton_append, List.append_eq_append_iff] at ht
    rcases ht with ⟨y, rfl, hy⟩ | ⟨y, rfl, hy⟩
    · cases y with
      | nil => exact (List.append_nil a).symm
      | cons z y =>
        obtain rfl := List.head_eq_of_cons_eq hy
        exact absurd (List.mem_append_right a List.mem_cons_self) hw
    · cases y with
      | nil => exact List.append_nil w
      | cons z y =>
        obtain rfl := List.head_eq_of_cons_eq hy
        exact absurd (List.mem_append_right w List.mem_cons_self) ha
  · intro heq
    subst heq
    exact ⟨l, by simp⟩

/-! ## Repeated prefixes -/

/-- Take a pattern off the front, at most `n` times. -/
def trimStartN (pat : List α) : Nat → List α → List α
  | 0, l => l
  | n + 1, l => if pat ≠ [] ∧ pat <+: l then trimStartN pat n (l.drop pat.length) else l

/-- Take a pattern off the front as long as it is there. An empty pattern takes nothing off. -/
def trimStart (pat l : List α) : List α := trimStartN pat l.length l

theorem trimStart_nil (l : List α) : trimStart [] l = l := by
  unfold trimStart
  cases l.length with
  | zero => rfl
  | succ n => rw [trimStartN, if_neg fun h => h.1 rfl]

theorem trimStart_of_not_prefix (h : ¬pat <+: l) : trimStart pat l = l := by
  unfold trimStart
  cases l.length with
  | zero => rfl
  | succ n => rw [trimStartN, if_neg fun hpre => h hpre.2]

theorem trimStartN_nil (pat : List α) (n : Nat) : trimStartN pat n [] = [] := by
  cases n with
  | zero => rfl
  | succ n => rw [trimStartN, if_neg fun h => h.1 (List.prefix_nil.mp h.2)]

/-- A list does not begin with a pattern more often than it has elements. -/
theorem trimStartN_congr (hn : l.length ≤ n) (hm : l.length ≤ m) :
    trimStartN pat n l = trimStartN pat m l := by
  induction n generalizing l m with
  | zero =>
    obtain rfl := List.eq_nil_of_length_eq_zero (Nat.le_zero.mp hn)
    rw [trimStartN_nil, trimStartN_nil]
  | succ n ih =>
    cases m with
    | zero =>
      obtain rfl := List.eq_nil_of_length_eq_zero (Nat.le_zero.mp hm)
      rw [trimStartN_nil, trimStartN_nil]
    | succ m =>
      rw [trimStartN, trimStartN]
      split
      · next h =>
        have hpos := List.length_pos_of_ne_nil h.1
        have hdrop := List.length_drop (i := pat.length) (l := l)
        exact ih (by omega) (by omega)
      · rfl

theorem trimStart_append (hpat : pat ≠ []) (l : List α) :
    trimStart pat (pat ++ l) = trimStart pat l := by
  have hpos := List.length_pos_of_ne_nil hpat
  have hlen : (pat ++ l).length = pat.length - 1 + l.length + 1 := by
    rw [List.length_append]
    omega
  rw [trimStart, hlen, trimStartN, if_pos ⟨hpat, List.prefix_append pat l⟩, List.drop_left]
  exact trimStartN_congr (Nat.le_add_left _ _) (Nat.le_refl _)

theorem trimStartN_suffix (pat l : List α) (n : Nat) : trimStartN pat n l <:+ l := by
  induction n generalizing l with
  | zero => exact List.suffix_refl l
  | succ n ih =>
    rw [trimStartN]
    split
    · exact (ih _).trans (List.drop_suffix _ l)
    · exact List.suffix_refl l

theorem trimStart_suffix (pat l : List α) : trimStart pat l <:+ l := trimStartN_suffix pat l _

end RustExtensions.Substring
