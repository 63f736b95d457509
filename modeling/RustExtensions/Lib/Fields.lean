import Mathlib.Data.List.Basic

/-!
# Fields of a line

A line is cut at its separators, and what lies between two of them is a field if
it is not empty. Fields without separators survive being joined. Escaping can
only make a field longer.
-/
namespace RustExtensions.Fields

variable {α : Type} {p : α → Bool} {s x : α} {l w : List α} {ws : List (List α)}

def fields (p : α → Bool) (l : List α) : List (List α) := (l.splitOnP p).filter fun w => !w.isEmpty

/-- A field has something in it, and no separator. -/
def IsField (p : α → Bool) (w : List α) : Prop := w ≠ [] ∧ ∀ x ∈ w, p x = false

theorem not_mem_of_mem_splitOnP (h : w ∈ l.splitOnP p) : ∀ x ∈ w, p x = false := by
  induction l generalizing w with
  | nil =>
    rw [List.splitOnP_nil, List.mem_singleton] at h
    subst h
    exact fun x hx => absurd hx List.not_mem_nil
  | cons b l ih =>
    rw [List.splitOnP_cons_eq_if_modifyHead] at h
    split at h
    · rcases List.mem_cons.mp h with rfl | h
      · exact fun x hx => absurd hx List.not_mem_nil
      · exact ih h
    · next hb =>
      obtain ⟨q, qs, hsplit⟩ := List.exists_cons_of_ne_nil (List.splitOnP_ne_nil p l)
      rw [hsplit, List.modifyHead_cons] at h
      rcases List.mem_cons.mp h with rfl | h
      · intro x hx
        rcases List.mem_cons.mp hx with rfl | hx
        · exact Bool.not_eq_true _ ▸ hb
        · exact ih (hsplit ▸ List.mem_cons_self) x hx
      · exact ih (hsplit ▸ List.mem_cons_of_mem q h)

theorem isField_of_mem_fields (h : w ∈ fields p l) : IsField p w := by
  obtain ⟨hsplit, hne⟩ := List.mem_filter.mp h
  refine ⟨?_, not_mem_of_mem_splitOnP hsplit⟩
  intro hnil
  subst hnil
  cases hne

theorem splitOnP_intercalate (hs : p s = true) (hne : ws ≠ [])
    (hws : ∀ w ∈ ws, ∀ x ∈ w, p x = false) : ([s].intercalate ws).splitOnP p = ws := by
  induction ws with
  | nil => exact absurd rfl hne
  | cons w ws ih =>
    have hw := hws w List.mem_cons_self
    cases ws with
    | nil =>
      show (List.intercalate [s] [w]).splitOnP p = [w]
      simpa using List.splitOnP_eq_singleton hw
    | cons w' ws =>
      rw [List.intercalate_cons_cons, List.append_assoc, List.singleton_append,
        List.splitOnP_append_cons_of_forall_mem hw s hs,
        ih (List.cons_ne_nil _ _) fun v hv => hws v (List.mem_cons_of_mem w hv)]

/-- Fields that are joined by one separator each are the fields of what comes out. -/
theorem fields_intercalate (hs : p s = true) (hne : ws ≠ []) (hws : ∀ w ∈ ws, IsField p w) :
    fields p ([s].intercalate ws) = ws := by
  rw [fields, splitOnP_intercalate hs hne fun w hw => (hws w hw).2, List.filter_eq_self]
  intro w hw
  have hw_ne := (hws w hw).1
  simpa using hw_ne

theorem mem_intercalate (h : x ∈ l.intercalate ws) : x ∈ l ∨ ∃ w ∈ ws, x ∈ w := by
  induction ws with
  | nil => exact absurd h List.not_mem_nil
  | cons w ws ih =>
    cases ws with
    | nil =>
      rw [List.intercalate_singleton] at h
      exact Or.inr ⟨w, List.mem_cons_self, h⟩
    | cons w' ws =>
      rw [List.intercalate_cons_cons, List.mem_append, List.mem_append] at h
      rcases h with (hw | hl) | hrest
      · exact Or.inr ⟨w, List.mem_cons_self, hw⟩
      · exact Or.inl hl
      · rcases ih hrest with hl | ⟨v, hv, hx⟩
        · exact Or.inl hl
        · exact Or.inr ⟨v, List.mem_cons_of_mem w hv, hx⟩

theorem infix_intercalate (h : w ∈ ws) : w <:+: l.intercalate ws := by
  induction ws with
  | nil => exact absurd h List.not_mem_nil
  | cons v ws ih =>
    cases ws with
    | nil =>
      obtain rfl := List.mem_singleton.mp h
      simp
    | cons v' ws =>
      rw [List.intercalate_cons_cons]
      rcases List.mem_cons.mp h with rfl | h
      · rw [List.append_assoc]
        exact (List.prefix_append w _).isInfix
      · exact (ih h).trans (List.suffix_append _ _).isInfix

/-- Lines that end with the separator leave nothing behind the last one. -/
theorem splitOn_terminated [DecidableEq α] (hws : ∀ w ∈ ws, s ∉ w) :
    (ws.flatMap (· ++ [s])).splitOn s = ws ++ [[]] := by
  induction ws with
  | nil => simp
  | cons w ws ih =>
    rw [List.flatMap_cons, List.append_assoc, List.singleton_append,
      List.splitOn_append_cons_self_of_not_mem (hws w List.mem_cons_self),
      ih fun v hv => hws v (List.mem_cons_of_mem w hv)]
    rfl

theorem splitOnP_append_separator (hs : p s = true) :
    (l ++ [s]).splitOnP p = l.splitOnP p ++ [[]] := by
  induction l with
  | nil => simp [List.splitOnP_cons_eq_if_modifyHead, hs]
  | cons b l ih =>
    rw [List.cons_append, List.splitOnP_cons_eq_if_modifyHead, ih,
      List.splitOnP_cons_eq_if_modifyHead]
    split
    · rfl
    · obtain ⟨q, qs, hsplit⟩ := List.exists_cons_of_ne_nil (List.splitOnP_ne_nil p l)
      rw [hsplit]
      rfl

/-- A separator at the end makes no field. -/
theorem fields_append_separator (hs : p s = true) : fields p (l ++ [s]) = fields p l := by
  rw [fields, splitOnP_append_separator hs, List.filter_append]
  exact List.append_nil _

theorem fields_append_cons (hs : p s = true) (l m : List α) :
    fields p (l ++ s :: m) = fields p l ++ fields p m := by
  rw [fields, List.splitOnP_append_cons l m hs, List.filter_append]
  rfl

/-- A separator that follows another one changes nothing. -/
theorem fields_cons (hs : p s = true) (l : List α) : fields p (s :: l) = fields p l :=
  fields_append_cons hs [] l

/-- All but the separators is in the fields. -/
theorem flatten_fields (l : List α) : (fields p l).flatten = l.filter fun x => !p x := by
  rw [fields, List.flatten_filter_not_isEmpty]
  induction l with
  | nil => simp
  | cons x l ih =>
    rw [List.splitOnP_cons_eq_if_modifyHead]
    split
    · next hx => simp [hx, ih]
    · next hx =>
      obtain ⟨q, qs, hsplit⟩ := List.exists_cons_of_ne_nil (List.splitOnP_ne_nil p l)
      rw [hsplit] at ih
      simp [hx, hsplit, ← ih]

/-- Each element stands for itself or for more than one. -/
theorem flatMap_eq_self {f : α → List α} (hf : ∀ x, f x = [x] ∨ 1 < (f x).length) :
    l.flatMap f = l ↔ ∀ x ∈ l, f x = [x] := by
  have hlen : ∀ l : List α, l.length ≤ (l.flatMap f).length := by
    intro l
    induction l with
    | nil => exact Nat.le_refl 0
    | cons x l ih =>
      rw [List.flatMap_cons, List.length_append, List.length_cons]
      rcases hf x with hx | hx
      · rw [hx, List.length_singleton]
        omega
      · omega
  induction l with
  | nil => simp
  | cons x l ih =>
    rw [List.flatMap_cons, List.forall_mem_cons]
    constructor
    · intro h
      rcases hf x with hx | hx
      · rw [hx, List.singleton_append, List.cons.injEq] at h
        exact ⟨hx, ih.mp h.2⟩
      · have hle := hlen l
        have hlength := congrArg List.length h
        rw [List.length_append, List.length_cons] at hlength
        omega
    · intro h
      obtain ⟨hx, hrest⟩ := h
      rw [hx, ih.mpr hrest]
      rfl

end RustExtensions.Fields
