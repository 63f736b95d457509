import Mathlib.Algebra.GroupWithZero.Nat
import Mathlib.Data.List.AList

/-!
# Keyed maps with no order of their own

`AList` at a constant value type. The order of the entries is not meant to be
observed: whoever iterates takes the order as an argument, a permutation of
the keys.
-/
namespace RustExtensions.KeyedMap

variable {κ V W : Type} [DecidableEq κ]

/-- A finite map from `κ` to `V`. -/
abbrev Map (κ V : Type) := AList (fun _ : κ => V)

namespace Map

variable (m : Map κ V) (k k' : κ) (v : V)

theorem lookup_insert_eq :
    (m.insert k v).lookup k' = if k' = k then some v else m.lookup k' := by
  split
  · next h =>
    rw [h]
    exact AList.lookup_insert m
  · next h => exact AList.lookup_insert_ne h

theorem lookup_erase_eq : (m.erase k).lookup k' = if k' = k then none else m.lookup k' := by
  split
  · next h =>
    rw [h]
    exact AList.lookup_erase k m
  · next h => exact AList.lookup_erase_ne h

theorem mem_keys_iff : k ∈ m.keys ↔ ∃ v, m.lookup k = some v := by
  have h := AList.lookup_isSome (a := k) (s := m)
  rw [Option.isSome_iff_exists] at h
  exact h.symm

/-- What is asked of every entry can be checked key by key. -/
instance (P : κ → V → Prop) [∀ k v, Decidable (P k v)] :
    Decidable (∀ k v, m.lookup k = some v → P k v) :=
  decidable_of_iff (∀ k ∈ m.keys, ∀ v ∈ m.lookup k, P k v)
    ⟨fun h k v hv => h k ((mem_keys_iff m k).mpr ⟨v, hv⟩) v hv, fun h k _ v hv => h k v hv⟩

/-- Apply `f` to every value. -/
def mapValues (f : V → W) : Map κ W :=
  ⟨m.entries.map fun e => ⟨e.1, f e.2⟩, by
    have hkeys : (m.entries.map fun e => (⟨e.1, f e.2⟩ : Sigma fun _ : κ => W)).keys =
        m.entries.keys := by
      simp [List.keys, Function.comp_def]
    rw [List.NodupKeys, hkeys]
    exact m.nodupKeys⟩

theorem lookup_mapValues (f : V → W) : (m.mapValues f).lookup k = (m.lookup k).map f := by
  obtain ⟨l, hl⟩ := m
  simp only [AList.lookup, mapValues]
  clear hl
  induction l with
  | nil => rfl
  | cons e l ih =>
    obtain ⟨k₁, v₁⟩ := e
    by_cases h : k₁ = k
    · subst h
      rw [List.map_cons, List.dlookup_cons_eq, List.dlookup_cons_eq, Option.map_some]
    · rw [List.map_cons, List.dlookup_cons_ne _ _ (Ne.symm h), List.dlookup_cons_ne _ _ (Ne.symm h),
        ih]

/-! ## The weight of a map -/

/-- What the values weigh together. -/
def total (f : V → Nat) : Nat := (m.entries.map fun e => f e.2).sum

variable {m k v} (f : V → Nat)

theorem total_insert : total (m.insert k v) f = f v + total (m.erase k) f := by
  simp only [total, AList.entries_insert, List.map_cons, List.sum_cons]
  rfl

theorem total_of_lookup (h : m.lookup k = some v) : total m f = f v + total (m.erase k) f := by
  have hmem : k ∈ m.entries.keys := (mem_keys_iff m k).mpr ⟨v, h⟩
  obtain ⟨v', l₁, l₂, hk, hentries, herase⟩ := List.exists_of_kerase hmem
  have hv : some v' = some v := by
    rw [← h, AList.lookup, hentries, List.dlookup_append, List.dlookup_eq_none.mpr hk,
      Option.none_or, List.dlookup_cons_eq]
  obtain rfl := Option.some.inj hv
  have herased : (m.erase k).entries = l₁ ++ l₂ := herase
  simp only [total, hentries, herased, List.map_append, List.map_cons, List.sum_append,
    List.sum_cons]
  omega

end Map
end RustExtensions.KeyedMap
