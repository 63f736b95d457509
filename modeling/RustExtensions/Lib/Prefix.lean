import Mathlib.Data.List.Basic

/-!
# Common prefixes

The longest list with which several lists begin, and the part of a list up to
the last place of a separator.
-/
namespace RustExtensions.Prefix

variable {α : Type} {p q l : List α} {ls : List (List α)} {a : α}

structure Longest (p : List α) (ls : List (List α)) : Prop where
  common : ∀ l ∈ ls, p <+: l
  longest : ∀ q, (∀ l ∈ ls, q <+: l) → q <+: p

/-- What all lists begin with is what their longest common prefix begins with. -/
theorem Longest.prefix_iff (h : Longest p ls) : q <+: p ↔ ∀ l ∈ ls, q <+: l :=
  ⟨fun hq l hl => hq.trans (h.common l hl), h.longest q⟩

/-- A separator splits a list at its last place. -/
theorem exists_last (h : a ∈ l) : ∃ x b, l = x ++ a :: b ∧ a ∉ b := by
  obtain ⟨x, b, hl, hb⟩ := List.eq_append_cons_of_mem (List.mem_reverse.mpr h)
  refine ⟨b.reverse, x.reverse, ?_, by simpa using hb⟩
  have hrev := congrArg List.reverse hl
  simpa using hrev

/-- What ends at a separator ends at the last one or before it. -/
theorem prefix_of_last {u b : List α} (hl : l = u ++ a :: b) (hb : a ∉ b) (hq : q ++ [a] <+: l) :
    q ++ [a] <+: u ++ [a] := by
  obtain ⟨r, hr⟩ := hq
  rw [hl, List.append_assoc, List.singleton_append, List.append_eq_append_iff] at hr
  rcases hr with ⟨x, rfl, hx⟩ | ⟨x, rfl, hx⟩
  · cases x with
    | nil => exact ⟨[], by simp⟩
    | cons c x =>
      obtain rfl := List.head_eq_of_cons_eq hx
      exact ⟨x ++ [a], by simp⟩
  · cases x with
    | nil => exact ⟨[], by simp⟩
    | cons c x =>
      obtain rfl := List.tail_eq_of_cons_eq hx
      exact absurd (List.mem_append_right x List.mem_cons_self) hb

theorem mem_iff_prefixed : a ∈ l ↔ ∃ q, q ++ [a] <+: l := by
  constructor
  · intro h
    obtain ⟨x, b, rfl, -⟩ := exists_last h
    exact ⟨x, b, by simp⟩
  · intro hexists
    obtain ⟨q, r, rfl⟩ := hexists
    simp

theorem head_iff_prefixed : l.head? = some a ↔ [a] <+: l := by
  cases l with
  | nil => simp
  | cons b l => simp [eq_comm]

/-- What lies between two separators has none. -/
theorem not_mem_of_mem_splitOn [DecidableEq α] (h : p ∈ l.splitOn a) : a ∉ p := by
  induction l generalizing p with
  | nil =>
    rw [List.splitOn_nil, List.mem_singleton] at h
    subst h
    exact List.not_mem_nil
  | cons b l ih =>
    rw [List.splitOn_cons_eq_if_modifyHead] at h
    split at h
    · rcases List.mem_cons.mp h with rfl | h
      · exact List.not_mem_nil
      · exact ih h
    · next hne =>
      obtain ⟨q, qs, hsplit⟩ := List.exists_cons_of_ne_nil (List.splitOn_ne_nil a l)
      rw [hsplit, List.modifyHead_cons] at h
      rcases List.mem_cons.mp h with rfl | h
      · intro hmem
        rcases List.mem_cons.mp hmem with rfl | hmem
        · exact hne (beq_self_eq_true a)
        · exact ih (hsplit ▸ List.mem_cons_self) hmem
      · exact ih (hsplit ▸ List.mem_cons_of_mem q h)

end RustExtensions.Prefix
