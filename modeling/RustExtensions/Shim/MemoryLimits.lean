import Mathlib.Algebra.Group.Nat.Defs
import RustExtensions.Lib.Runs
import RustExtensions.Shim.Cgroup

/-!
# The two memory limits of an update

The kernel of cgroup v1 refuses a limit of memory above the one of memory plus
swap. It counts both in pages, and a written -1 is its greatest number. On v2
the second limit is one of swap alone.
-/
namespace RustExtensions.Shim

open RustExtensions.Calls

/-! ## Cgroup v1 -/

/-- The size of a page, and the number of pages that is no limit. It is reported as an `i64`. -/
structure PageCounter where
  page : Nat
  max : Nat
  page_pos : 0 < page
  fits : max * page < 2 ^ 63

namespace PageCounter

/-- The pages of a limit as it is written; the kernel takes no negative number but -1. -/
def pages (k : PageCounter) (v : Int64) : Option Nat :=
  if v = -1 then some k.max
  else if v < 0 then none
  else some (min (v.toInt.toNat / k.page) k.max)

/-- A number of pages as it is read. -/
def reported (k : PageCounter) (n : Nat) : Int64 := Int64.ofNat (n * k.page)

end PageCounter

/-- The limits in place, and the writes that were accepted so far. -/
structure MemoryLimits (k : PageCounter) where
  limit : Nat
  memsw : Nat
  ordered : limit ≤ memsw
  bounded : memsw ≤ k.max
  writes : List CgroupCall := []

namespace MemoryLimits

variable {k : PageCounter}

def einval : CgroupError where
  text := "unable to write to file"

def setLimit (κ : MemoryLimits k) (v : Int64) : CgroupAnswer × MemoryLimits k :=
  match k.pages v with
  | some n =>
    if h : n ≤ κ.memsw then
      (.ok 0, { κ with limit := n, ordered := h, writes := κ.writes ++ [.setLimit v] })
    else (.error einval, κ)
  | none => (.error einval, κ)

def setMemsw (κ : MemoryLimits k) (v : Int64) : CgroupAnswer × MemoryLimits k :=
  match k.pages v with
  | some n =>
    if h : κ.limit ≤ n ∧ n ≤ k.max then
      (.ok 0, { κ with
        memsw := n, ordered := h.1, bounded := h.2
        writes := κ.writes ++ [.setMemswapLimit v] })
    else (.error einval, κ)
  | none => (.error einval, κ)

/-- The write is not refused. -/
def Accepts (c : CgroupCall) (κ : MemoryLimits k) : Prop :=
  match c with
  | .setLimit v => ∃ n, k.pages v = some n ∧ n ≤ κ.memsw
  | .setMemswapLimit v => ∃ n, k.pages v = some n ∧ κ.limit ≤ n
  | _ => True

end MemoryLimits

/-- The kernel of cgroup v1. The other controllers answer as `other` says. -/
def memoryHost (k : PageCounter) (other : CgroupCall → CgroupAnswer) :
    Host (MemoryLimits k) CgroupCall CgroupAnswer Empty Unit where
  others _ i := nomatch i
  exec κ c _ :=
    match c with
    | .limitInBytes => some (.ok (k.reported κ.limit), κ)
    | .setLimit v => some (κ.setLimit v)
    | .setMemswapLimit v => some (κ.setMemsw v)
    | c => some (other c, κ)

/-- Nobody else writes to the files meanwhile. -/
def alone (k : PageCounter) : Rules (MemoryLimits k) CgroupCall Empty where
  others _ _ := False
  calls _ _ := True

section V1
variable {k : PageCounter} {other : CgroupCall → CgroupAnswer} {κ κ' : MemoryLimits k}
  {limit swap v : Int64} {n m : Nat} {α β : Type}

/-- A limit of a request is positive or -1. -/
def IsLimit (v : Int64) : Prop := 0 < v ∨ v = -1

/-- The order of limits, where -1 is the greatest. -/
def AtMost (limit swap : Int64) : Prop := swap = -1 ∨ limit ≠ -1 ∧ limit ≤ swap

theorem rely_alone (h : Rely (memoryHost k other) (alone k) κ κ') : κ' = κ := by
  induction h with
  | refl => rfl
  | tail _ hstep _ =>
    obtain ⟨i, -⟩ := hstep
    exact i.elim

theorem isLimit_cases (h : IsLimit v) : v = -1 ∨ v ≠ -1 ∧ ¬v < 0 ∧ 0 < v.toInt := by
  rcases h with hpos | hnone
  · have hpos := Int64.lt_iff_toInt_lt.mp hpos
    refine Or.inr ⟨?_, ?_, hpos⟩
    · intro heq
      subst heq
      exact absurd hpos (by decide)
    · intro hneg
      have hneg := Int64.lt_iff_toInt_lt.mp hneg
      exact absurd (Int.lt_trans hneg hpos) (Int.lt_irrefl _)
  · exact Or.inl hnone

/-- No limit of a request counts as unset. -/
theorem filter_isLimit (h : IsLimit v) : (some v).filter (· ≠ 0) = some v := by
  have hne : v ≠ 0 := by
    intro heq
    subst heq
    rcases h with h | h <;> exact absurd h (by decide)
  simp [Option.filter, hne]

theorem pages_of_isLimit (h : IsLimit v) : ∃ n, k.pages v = some n ∧ n ≤ k.max := by
  rcases isLimit_cases h with rfl | ⟨hne, hneg, -⟩
  · exact ⟨k.max, if_pos rfl, Nat.le_refl _⟩
  · exact ⟨_, by rw [PageCounter.pages, if_neg hne, if_neg hneg], Nat.min_le_right ..⟩

theorem pages_le (h : AtMost limit swap) (hlimit : k.pages limit = some n)
    (hswap : k.pages swap = some m) (hn : n ≤ k.max) : n ≤ m := by
  unfold PageCounter.pages at hlimit hswap
  rcases h with rfl | ⟨hne, hle⟩
  · rw [if_pos rfl] at hswap
    obtain rfl := Option.some.inj hswap
    exact hn
  · have hle := Int64.le_iff_toInt_le.mp hle
    rw [if_neg hne] at hlimit
    split at hlimit
    · cases hlimit
    · obtain rfl := Option.some.inj hlimit
      split at hswap
      · obtain rfl := Option.some.inj hswap
        exact hn
      · split at hswap
        · cases hswap
        · obtain rfl := Option.some.inj hswap
          have hdiv : limit.toInt.toNat / k.page ≤ swap.toInt.toNat / k.page :=
            Nat.div_le_div_right (by omega)
          omega

theorem toInt_reported (h : n ≤ k.max) : (k.reported n).toInt = n * k.page := by
  have hle : n * k.page ≤ k.max * k.page := Nat.mul_le_mul_right k.page h
  have hfits := k.fits
  rw [PageCounter.reported, Int64.toInt_ofNat_of_lt (by omega)]
  exact Int.natCast_mul ..

/-- A limit that is greater than the one in place is one of no fewer pages. -/
theorem le_pages_of_lt (hn : n ≤ k.max) (hlt : k.reported n < swap)
    (hswap : k.pages swap = some m) : n ≤ m := by
  have hlt := Int64.lt_iff_toInt_lt.mp hlt
  rw [toInt_reported hn] at hlt
  unfold PageCounter.pages at hswap
  split at hswap
  · obtain rfl := Option.some.inj hswap
    exact hn
  · split at hswap
    · cases hswap
    · obtain rfl := Option.some.inj hswap
      have hle : n ≤ swap.toInt.toNat / k.page := by
        rw [Nat.le_div_iff_mul_le k.page_pos]
        omega
      omega

/-- And one that is no greater is one of no more. -/
theorem pages_le_of_not_lt (hne : swap ≠ -1) (hn : n ≤ k.max) (hle : ¬k.reported n < swap)
    (hswap : k.pages swap = some m) : m ≤ n := by
  have hle := mt Int64.lt_iff_toInt_lt.mpr hle
  rw [toInt_reported hn] at hle
  unfold PageCounter.pages at hswap
  rw [if_neg hne] at hswap
  split at hswap
  · cases hswap
  · obtain rfl := Option.some.inj hswap
    have hdiv : swap.toInt.toNat / k.page ≤ n := by
      apply Nat.div_le_of_le_mul
      rw [Nat.mul_comm]
      omega
    omega

/-! ### What the parts of an update do -/

/-- On the kernel and the other controllers the program returns, with every write to the limits
accepted. -/
abbrev Accepting (other : CgroupCall → CgroupAnswer) (Q : Except Error α → MemoryLimits k → Prop)
    (p : Update α) (κ : MemoryLimits k) : Prop :=
  AlwaysReturns (memoryHost k other) (alone k) MemoryLimits.Accepts Q p.run κ

theorem accepting_ret {r : Except Error α} {Q : Except Error α → MemoryLimits k → Prop}
    (h : Q r κ) : Accepting other Q (.mk (.ret r)) κ := by
  intro κ' hκ
  obtain rfl := rely_alone hκ
  exact h

theorem accepting_pure {a : α} {Q : Except Error α → MemoryLimits k → Prop} (h : Q (.ok a) κ) :
    Accepting other Q (pure a) κ :=
  accepting_ret h

/-- A call is answered where it is made. -/
theorem accepting_call {c : CgroupCall} {answer : CgroupAnswer} {next : CgroupAnswer → Update α}
    {Q : Except Error α → MemoryLimits k → Prop} (hc : MemoryLimits.Accepts c κ)
    (hexec : (memoryHost k other).exec κ c () = some (answer, κ'))
    (h : Accepting other Q (next answer) κ') :
    Accepting other Q (.mk (.call c fun r => (next r).run)) κ := by
  intro κ₁ hκ
  obtain rfl := rely_alone hκ
  refine ⟨hc, trivial, ⟨(), _, _, hexec⟩, fun _ r κ₂ he => ?_⟩
  obtain ⟨rfl, rfl⟩ := Prod.mk.inj (Option.some.inj (hexec.symm.trans he))
  exact h

theorem accepting_bind {p : Update α} {f : α → Update β}
    {Q : Except Error α → MemoryLimits k → Prop}
    {Q' : Except Error β → MemoryLimits k → Prop} (h : Accepting other Q p κ)
    (hok : ∀ a κ', Q (.ok a) κ' → Accepting other Q' (f a) κ')
    (herror : ∀ e κ', Q (.error e) κ' → Q' (.error e) κ') : Accepting other Q' (p >>= f) κ :=
  AlwaysReturns.exceptBind h (fun a κ' ha => hok a κ' (ha κ' .refl)) herror

theorem accepting_limitInBytes : Accepting other
    (fun r κ' => κ' = κ ∧ r = .ok (k.reported κ.limit)) limitInBytes κ :=
  accepting_call trivial rfl (accepting_pure ⟨rfl, rfl⟩)

theorem accepting_setLimit (hn : k.pages v = some n) (hle : n ≤ κ.memsw) : Accepting other
    (fun r κ' => r = .ok () ∧ κ'.limit = n ∧ κ'.memsw = κ.memsw ∧
      κ'.writes = κ.writes ++ [.setLimit v]) (setLimit (some v)) κ := by
  have hset : κ.setLimit v = (.ok 0, { κ with
      limit := n, ordered := hle, writes := κ.writes ++ [.setLimit v] }) := by
    simp only [MemoryLimits.setLimit, hn, dif_pos hle]
  exact accepting_call ⟨n, hn, hle⟩ (congrArg some hset) (accepting_pure ⟨rfl, rfl, rfl, rfl⟩)

theorem accepting_setSwap (hn : k.pages v = some n) (hle : κ.limit ≤ n) (hmax : n ≤ k.max) :
    Accepting other (fun r κ' => r = .ok () ∧ κ'.limit = κ.limit ∧ κ'.memsw = n ∧
      κ'.writes = κ.writes ++ [.setMemswapLimit v]) (setSwap false (some v)) κ := by
  have hset : κ.setMemsw v = (.ok 0, { κ with
      memsw := n, ordered := hle, bounded := hmax
      writes := κ.writes ++ [.setMemswapLimit v] }) := by
    simp only [MemoryLimits.setMemsw, hn, dif_pos (And.intro hle hmax)]
  exact accepting_call ⟨n, hn, hle⟩ (congrArg some hset) (accepting_pure ⟨rfl, rfl, rfl, rfl⟩)

theorem accepting_swapFirst : Accepting other
    (fun r κ' => κ' = κ ∧ ∃ first, r = .ok first ∧
      (first = true ↔ swap = -1 ∨ k.reported κ.limit < swap))
    (swapFirst false (some limit) (some swap)) κ := by
  by_cases hnone : swap = -1
  · have hfirst : swapFirst false (some limit) (some swap) = pure true := by
      simp [swapFirst, hnone]
    rw [hfirst]
    exact accepting_pure ⟨rfl, true, rfl, by simp [hnone]⟩
  · have hread : swapFirst false (some limit) (some swap) =
        limitInBytes >>= fun current => pure (decide (current < swap)) := by
      simp only [swapFirst, Bool.false_eq_true, if_false, hnone]
      rfl
    rw [hread]
    refine accepting_bind accepting_limitInBytes ?_ ?_
    · intro current κ' h
      obtain ⟨rfl, hread⟩ := h
      obtain rfl := Except.ok.inj hread
      exact accepting_pure ⟨rfl, _, rfl, by simp [hnone]⟩
    · intro e κ' h
      cases h.2

/-- The limits that the writes of a request are to leave. -/
def Final (limit swap : Int64) (κ : MemoryLimits k) : Prop :=
  k.pages limit = some κ.limit ∧ k.pages swap = some κ.memsw

/-- The two writes of a request, in one order or the other. -/
def BothWritten (limit swap : Int64) (calls : List CgroupCall) : Prop :=
  calls = [.setMemswapLimit swap, .setLimit limit] ∨
    calls = [.setLimit limit, .setMemswapLimit swap]

/-- In the order that is chosen, no write is refused. -/
theorem accepting_updateMemory (hlimit : IsLimit limit) (hswap : IsLimit swap)
    (hle : AtMost limit swap) : Accepting other (fun r κ' => r = .ok () ∧ Final limit swap κ' ∧
      ∃ calls, BothWritten limit swap calls ∧ κ'.writes = κ.writes ++ calls)
      (updateMemory false { limit := some limit, swap := some swap }) κ := by
  obtain ⟨n, hn, hnmax⟩ := pages_of_isLimit (k := k) hlimit
  obtain ⟨m, hm, hmmax⟩ := pages_of_isLimit (k := k) hswap
  have hnm := pages_le hle hn hm hnmax
  have hmemsw := κ.ordered
  have hbound : κ.limit ≤ k.max := Nat.le_trans κ.ordered κ.bounded
  have hprogram : updateMemory false { limit := some limit, swap := some swap } =
      swapFirst false (some limit) (some swap) >>= fun first =>
        if first then setSwap false (some swap) >>= fun _ => setLimit (some limit)
        else setLimit (some limit) >>= fun _ => setSwap false (some swap) := by
    simp only [updateMemory, LinuxMemory.requested, swapLimit, Bool.false_eq_true, if_false,
      filter_isLimit hlimit, filter_isLimit hswap]
    rfl
  rw [hprogram]
  refine accepting_bind accepting_swapFirst ?_ ?_
  · intro first κ' h
    obtain ⟨rfl, _, hfirst, hiff⟩ := h
    obtain rfl := Except.ok.inj hfirst
    cases first with
    | true =>
      have hraise : κ'.limit ≤ m := by
        rcases hiff.mp rfl with rfl | hlt
        · rw [PageCounter.pages, if_pos rfl] at hm
          obtain rfl := Option.some.inj hm
          exact hbound
        · exact le_pages_of_lt hbound hlt hm
      refine accepting_bind (accepting_setSwap hm hraise hmmax) ?_ (fun e κ₁ h => nomatch h.1)
      intro _ κ₁ h
      obtain ⟨-, -, hset, hwrites⟩ := h
      refine AlwaysReturns.mono (accepting_setLimit hn (hset ▸ hnm)) ?_
      intro r κ₂ h
      obtain ⟨hr, hlimit₂, hmemsw₂, hwrites₂⟩ := h
      refine ⟨hr, ⟨hlimit₂ ▸ hn, hmemsw₂.trans hset ▸ hm⟩, _, Or.inl rfl, ?_⟩
      rw [hwrites₂, hwrites, List.append_assoc]
      rfl
    | false =>
      have hlower : m ≤ κ'.limit := by
        have hnot := mt hiff.mpr Bool.false_ne_true
        simp only [not_or] at hnot
        exact pages_le_of_not_lt hnot.1 hbound hnot.2 hm
      refine accepting_bind (accepting_setLimit hn (by omega)) ?_ (fun e κ₁ h => nomatch h.1)
      intro _ κ₁ h
      obtain ⟨-, hset, -, hwrites⟩ := h
      refine AlwaysReturns.mono (accepting_setSwap hm (hset ▸ hnm) hmmax) ?_
      intro r κ₂ h
      obtain ⟨hr, hlimit₂, hmemsw₂, hwrites₂⟩ := h
      refine ⟨hr, ⟨hlimit₂.trans hset ▸ hn, hmemsw₂ ▸ hm⟩, _, Or.inr rfl, ?_⟩
      rw [hwrites₂, hwrites, List.append_assoc]
      rfl
  · intro e κ' h
    obtain ⟨_, _, hread, _⟩ := h
    cases hread

/-! ### The other controllers -/

/-- The program leaves the memory limits alone, and fails only where another controller does. -/
def Aside (other : CgroupCall → CgroupAnswer) (k : PageCounter) (p : Update Unit) : Prop :=
  ∀ κ : MemoryLimits k, Accepting other
    (fun r κ' => κ' = κ ∧ ((∀ c, (other c).isOk) → r = .ok ())) p κ

/-- The call is one of another controller. -/
def CgroupCall.Other : CgroupCall → Prop
  | .limitInBytes | .setLimit _ | .setMemswapLimit _ => False
  | _ => True

theorem aside_pure : Aside other k (pure ()) := fun _ => accepting_pure ⟨rfl, fun _ => rfl⟩

theorem aside_write {c : CgroupCall} {context : String} (hc : c.Other) :
    Aside other k (writeLimit c context) := by
  intro κ
  have hexec : (memoryHost k other).exec κ c () = some (other c, κ) := by
    cases c <;> first | rfl | exact hc.elim
  have haccepts : MemoryLimits.Accepts c κ := by
    cases c <;> trivial
  refine accepting_call haccepts hexec ?_
  cases hanswer : other c with
  | ok v => exact accepting_ret ⟨rfl, fun _ => rfl⟩
  | error e =>
    refine accepting_ret ⟨rfl, fun hall => ?_⟩
    have hok := hall c
    rw [hanswer] at hok
    cases hok

theorem aside_bind {p : Update Unit} {f : Unit → Update Unit} (hp : Aside other k p)
    (hf : ∀ u, Aside other k (f u)) : Aside other k (p >>= f) := by
  intro κ
  refine accepting_bind (hp κ) ?_ ?_
  · intro u κ' h
    obtain ⟨rfl, -⟩ := h
    exact hf u κ'
  · intro e κ' h
    exact ⟨h.1, fun hall => nomatch h.2 hall⟩

theorem aside_writeSome {x : Option α} {c : α → CgroupCall} {context : String}
    (hc : ∀ a, (c a).Other) : Aside other k (writeSome x c context) := by
  cases x with
  | none => exact aside_pure
  | some a => exact aside_write (hc a)

theorem aside_updateSubsystem {resources : LinuxResources} {s : Subsystem} (hs : s ≠ .mem) :
    Aside other k (updateSubsystem false resources s) := by
  cases s with
  | pid => exact aside_writeSome fun _ => trivial
  | mem => exact absurd rfl hs
  | cpuSet =>
    rw [updateSubsystem]
    split
    · exact aside_bind (aside_writeSome fun _ => trivial) fun _ => aside_writeSome fun _ => trivial
    · exact aside_pure
  | cpu =>
    rw [updateSubsystem]
    split
    · refine aside_bind (aside_writeSome fun _ => trivial) fun _ => ?_
      exact aside_bind (aside_writeSome fun _ => trivial) fun _ => aside_writeSome fun _ => trivial
    · exact aside_pure
  | hugeTlb =>
    rw [updateSubsystem]
    split
    · next limits hlimits =>
      clear hlimits
      induction limits with
      | nil => exact aside_pure
      | cons l limits ih =>
        rw [List.forM]
        exact aside_bind (aside_write trivial) fun _ => ih
    · exact aside_pure
  | other => exact aside_pure

/-! ### The whole update -/

/-- What an update leaves of its two limits: it wrote both for each controller of memory there
is, and they are in place if there is one. -/
structure Updated (limit swap : Int64) (subsystems : List Subsystem) (κ κ' : MemoryLimits k) :
    Prop where
  written : ∃ rounds : List (List CgroupCall), rounds.length = subsystems.count .mem ∧
    (∀ calls ∈ rounds, BothWritten limit swap calls) ∧ κ'.writes = κ.writes ++ rounds.flatten
  final : .mem ∈ subsystems ∨ Final limit swap κ → Final limit swap κ'

theorem updated_nil : Updated limit swap [] κ κ where
  written := ⟨[], rfl, fun _ => (nomatch ·), (List.append_nil _).symm⟩
  final h := h.resolve_left List.not_mem_nil

theorem Updated.mem {subsystems : List Subsystem} {κ₁ : MemoryLimits k} {calls : List CgroupCall}
    (h : Updated limit swap subsystems κ₁ κ') (hboth : BothWritten limit swap calls)
    (hwrites : κ₁.writes = κ.writes ++ calls) (hfinal : Final limit swap κ₁) :
    Updated limit swap (.mem :: subsystems) κ κ' where
  written := by
    obtain ⟨rounds, hlength, hrounds, hwritten⟩ := h.written
    refine ⟨calls :: rounds, ?_, List.forall_mem_cons.mpr ⟨hboth, hrounds⟩, ?_⟩
    · rw [List.length_cons, hlength, List.count_cons_self]
    · rw [hwritten, hwrites, List.append_assoc, List.flatten_cons]
  final _ := h.final (Or.inr hfinal)

theorem Updated.aside {subsystems : List Subsystem} {s : Subsystem}
    (h : Updated limit swap subsystems κ κ') (hs : s ≠ .mem) :
    Updated limit swap (s :: subsystems) κ κ' where
  written := by
    rw [List.count_cons_of_ne hs]
    exact h.written
  final hor := h.final (hor.imp_left fun hmem => (List.mem_cons.mp hmem).resolve_left hs.symm)

/-- An update returns, all its writes to the limits are accepted, and where it returns Ok both
limits were written for each controller of memory and are in place. It fails only where another
controller does. -/
theorem memory_limits_accepted (other : CgroupCall → CgroupAnswer) (κ : MemoryLimits k)
    (subsystems : List Subsystem) (resources : LinuxResources) (limit swap : Int64)
    (hmemory : resources.memory = some { limit := some limit, swap := some swap })
    (hlimit : IsLimit limit) (hswap : IsLimit swap) (hle : AtMost limit swap) :
    Accepting other (fun r κ' =>
        (r = .ok () → Updated limit swap subsystems κ κ') ∧
        ((∀ c, (other c).isOk) → r = .ok ()))
      (updateResources false subsystems resources) κ := by
  unfold updateResources
  induction subsystems generalizing κ with
  | nil => exact accepting_pure ⟨fun _ => updated_nil, fun _ => rfl⟩
  | cons s subsystems ih =>
    rw [List.forM]
    by_cases hs : s = .mem
    · subst hs
      have hupdate : updateSubsystem false resources .mem =
          updateMemory false { limit := some limit, swap := some swap } := by
        rw [updateSubsystem, hmemory]
      rw [hupdate]
      refine accepting_bind (accepting_updateMemory hlimit hswap hle) ?_ (fun e κ' h => nomatch h.1)
      intro _ κ₁ h
      obtain ⟨-, hfinal, calls, hboth, hwrites⟩ := h
      exact AlwaysReturns.mono (ih κ₁) fun r κ' hr =>
        ⟨fun hok => (hr.1 hok).mem hboth hwrites hfinal, hr.2⟩
    · refine accepting_bind (aside_updateSubsystem hs κ) ?_ ?_
      · intro _ κ₁ h
        obtain ⟨rfl, -⟩ := h
        exact AlwaysReturns.mono (ih κ₁) fun r κ' hr => ⟨fun hok => (hr.1 hok).aside hs, hr.2⟩
      · intro e κ' h
        exact ⟨fun hok => (nomatch hok), fun hall => (nomatch h.2 hall)⟩

/-- A limit raised together with the one of memory plus swap, on pages of 4096 bytes. -/
theorem raised_limits_accepted :
    let k : PageCounter := ⟨4096, 2251799813685247, by decide, by decide⟩
    let κ : MemoryLimits k := ⟨100, 200, by decide, by decide, []⟩
    Accepting (fun _ => .ok 0) (fun r κ' =>
        (r = .ok () → Updated 1228800 1638400 [.pid, .mem] κ κ') ∧
        ((∀ _ : CgroupCall, (Except.ok 0 : CgroupAnswer).isOk) → r = .ok ()))
      (updateResources false [.pid, .mem]
        { memory := some { limit := some 1228800, swap := some 1638400 } }) κ := by
  intro k κ
  exact memory_limits_accepted (fun _ => .ok 0) κ [.pid, .mem]
    { memory := some { limit := some 1228800, swap := some 1638400 } } 1228800 1638400 rfl
    (Or.inl (by decide)) (Or.inl (by decide)) (Or.inr ⟨by decide, by decide⟩)

end V1

/-! ## Cgroup v2 -/

section V2
variable {memory : LinuxMemory} {inPlace swap v : Int64} {limit : Option Int64}
  {t t₁ t₂ : List (CgroupCall × CgroupAnswer)}

/-- The values that a run writes to the limit of swap. -/
def swapWrites (t : List (CgroupCall × CgroupAnswer)) : List Int64 :=
  t.filterMap fun q =>
    match q.1 with
    | .setMemswapLimit v => some v
    | _ => none

def OnlyReads (t : List (CgroupCall × CgroupAnswer)) : Prop := ∀ q ∈ t, q.1 = .limitInBytes

/-- What is read is the limit in place. -/
def Reads (inPlace : Int64) (t : List (CgroupCall × CgroupAnswer)) : Prop :=
  ∀ a, (.limitInBytes, a) ∈ t → a = .ok inPlace

namespace LinuxMemory

/-- The limit that the requested swap is converted against. -/
def against (memory : LinuxMemory) (inPlace : Int64) : Option Int64 :=
  match memory.requested with
  | none => if memory.swap.getD 0 > 0 then some inPlace else none
  | some limit => some limit

def decided (memory : LinuxMemory) (inPlace : Int64) : Option (Except Error (Option Int64)) :=
  swapForV2 (memory.swap.getD 0) (memory.against inPlace)

end LinuxMemory

theorem ends_limitInBytes {e : Ending (Except Error Int64)} (h : limitInBytes.run.Ends t e)
    (hreads : Reads inPlace t) :
    t = [(.limitInBytes, .ok inPlace)] ∧ e = .returned (.ok inPlace) := by
  obtain ⟨r, t', rfl, hrest⟩ := Program.ends_call.mp h
  obtain rfl := hreads r List.mem_cons_self
  obtain ⟨rfl, rfl⟩ := Program.ends_ret.mp hrest
  exact ⟨rfl, rfl⟩

/-- What becomes of the outcome of the conversion. -/
def settle : Option (Except Error (Option Int64)) → Update (Option Int64)
  | some (.ok v) => pure v
  | some (.error e) => throw e
  | none => .mk .panic

theorem ends_settle {x : Option (Except Error (Option Int64))}
    {e : Ending (Except Error (Option Int64))} (h : (settle x).run.Ends t e) :
    t = [] ∧ e = x.elim (.stopped .panic) .returned := by
  cases x with
  | none => exact Program.ends_panic.mp h
  | some r =>
    cases r with
    | ok v => exact Program.ends_ret.mp h
    | error er => exact Program.ends_ret.mp h

theorem limitInBytes_map_bind {α β : Type} {f : Int64 → α} {g : α → Update β} :
    (f <$> limitInBytes >>= g) = limitInBytes >>= fun limit => g (f limit) := by
  refine congrArg (Program.call CgroupCall.limitInBytes) (funext fun r => ?_)
  cases r <;> rfl

theorem swapLimit_eq : swapLimit true memory =
    if memory.requested = none ∧ memory.swap.getD 0 > 0 then
      limitInBytes >>= fun limit => settle (swapForV2 (memory.swap.getD 0) (some limit))
    else settle (swapForV2 (memory.swap.getD 0) memory.requested) := by
  unfold swapLimit
  cases hrequested : memory.requested with
  | some limit =>
    simp only [reduceCtorEq, false_and, if_false, if_true]
    rfl
  | none =>
    by_cases hpos : memory.swap.getD 0 > 0
    · simp only [hpos, and_self, if_true, limitInBytes_map_bind]
      rfl
    · simp only [hpos, and_false, if_false, if_true]
      rfl

/-- The conversion has no effect but a read, and its outcome is the decision. -/
theorem ends_swapLimit {e : Ending (Except Error (Option Int64))}
    (h : (swapLimit true memory).run.Ends t e) (hreads : Reads inPlace t) :
    OnlyReads t ∧ e = (memory.decided inPlace).elim (.stopped .panic) .returned := by
  rw [swapLimit_eq] at h
  have hagainst : memory.against inPlace =
      if memory.requested = none ∧ memory.swap.getD 0 > 0 then some inPlace
      else memory.requested := by
    unfold LinuxMemory.against
    cases hrequested : memory.requested with
    | some limit => simp
    | none => simp
  rw [LinuxMemory.decided, hagainst]
  split at h
  · next hunset =>
    rw [if_pos hunset]
    rcases Program.ends_exceptBind.mp h with ⟨t₁, t₂, a, rfl, hread, hrest⟩ | ⟨er, rfl, hread⟩ |
      ⟨s, rfl, hread⟩
    · obtain ⟨rfl, ha⟩ := ends_limitInBytes hread fun a ha => hreads a (List.mem_append_left _ ha)
      obtain rfl := Except.ok.inj (Ending.returned.inj ha)
      obtain ⟨rfl, he⟩ := ends_settle hrest
      exact ⟨by simp [OnlyReads], he⟩
    · cases (ends_limitInBytes hread hreads).2
    · cases (ends_limitInBytes hread hreads).2
  · next hset =>
    rw [if_neg hset]
    obtain ⟨rfl, he⟩ := ends_settle h
    exact ⟨by simp [OnlyReads], he⟩

theorem swapWrites_append : swapWrites (t₁ ++ t₂) = swapWrites t₁ ++ swapWrites t₂ :=
  List.filterMap_append

theorem swapWrites_reads (h : OnlyReads t) : swapWrites t = [] := by
  rw [swapWrites, List.filterMap_eq_nil_iff]
  intro q hq
  rw [h q hq]

theorem ends_setLimit {e : Ending (Except Error Unit)} (h : (setLimit limit).run.Ends t e) :
    swapWrites t = [] ∧ e ≠ .stopped .panic := by
  cases limit with
  | none =>
    obtain ⟨rfl, rfl⟩ := Program.ends_ret.mp h
    exact ⟨rfl, by simp⟩
  | some v =>
    obtain ⟨r, t', rfl, hrest⟩ := Program.ends_call.mp h
    cases r <;>
    · obtain ⟨rfl, rfl⟩ := Program.ends_ret.mp hrest
      exact ⟨rfl, by simp⟩

theorem ends_setSwap {e : Ending (Except Error Unit)} (h : (setSwap true limit).run.Ends t e) :
    swapWrites t = limit.toList ∧ e ≠ .stopped .panic := by
  cases limit with
  | none =>
    obtain ⟨rfl, rfl⟩ := Program.ends_ret.mp h
    exact ⟨rfl, by simp⟩
  | some v =>
    obtain ⟨r, t', rfl, hrest⟩ := Program.ends_call.mp h
    cases r with
    | ok _ =>
      obtain ⟨rfl, rfl⟩ := Program.ends_ret.mp hrest
      exact ⟨rfl, by simp⟩
    | error er =>
      dsimp only at hrest
      split at hrest <;>
      · obtain ⟨rfl, rfl⟩ := Program.ends_ret.mp hrest
        exact ⟨rfl, by simp⟩

/-- In a run the decided value is written once, or nothing is if the update is refused. -/
theorem ends_updateMemory {e : Ending (Except Error Unit)}
    (h : (updateMemory true memory).run.Ends t e) (hreads : Reads inPlace t) :
    (∃ v, memory.decided inPlace = some (.ok v) ∧ swapWrites t = v.toList ∧
      e ≠ .stopped .panic) ∨
    (∃ er, memory.decided inPlace = some (.error er) ∧ OnlyReads t ∧ e = .returned (.error er)) ∨
    memory.decided inPlace = none := by
  have hprogram : updateMemory true memory = swapLimit true memory >>= fun swap =>
      setSwap true swap >>= fun _ => setLimit memory.requested := rfl
  rw [hprogram] at h
  cases hd : memory.decided inPlace with
  | none => exact Or.inr (Or.inr rfl)
  | some r =>
    rcases Program.ends_exceptBind.mp h with ⟨t₁, t₂, v, rfl, hswap, hrest⟩ | ⟨er, rfl, hswap⟩ |
      ⟨s, rfl, hswap⟩
    · obtain ⟨hquiet, hdecided⟩ := ends_swapLimit hswap fun a ha =>
        hreads a (List.mem_append_left _ ha)
      rw [hd] at hdecided
      obtain rfl := Ending.returned.inj hdecided
      refine Or.inl ⟨v, rfl, ?_⟩
      rw [swapWrites_append, swapWrites_reads hquiet, List.nil_append]
      rcases Program.ends_exceptBind.mp hrest with ⟨t₃, t₄, _, rfl, hset, hlimit⟩ |
        ⟨er, rfl, hset⟩ | ⟨s, rfl, hset⟩
      · obtain ⟨hwrites, -⟩ := ends_setSwap hset
        obtain ⟨hnone, hend⟩ := ends_setLimit hlimit
        rw [swapWrites_append, hwrites, hnone, List.append_nil]
        exact ⟨rfl, hend⟩
      · exact ⟨(ends_setSwap hset).1, by simp⟩
      · obtain ⟨hwrites, hend⟩ := ends_setSwap hset
        refine ⟨hwrites, ?_⟩
        intro heq
        obtain rfl := Ending.stopped.inj heq
        exact hend rfl
    · obtain ⟨hquiet, hdecided⟩ := ends_swapLimit hswap hreads
      rw [hd] at hdecided
      obtain rfl := Ending.returned.inj hdecided
      exact Or.inr (Or.inl ⟨er, rfl, hquiet, rfl⟩)
    · obtain ⟨-, hdecided⟩ := ends_swapLimit hswap hreads
      rw [hd] at hdecided
      cases hdecided

/-! ### The decision -/

theorem checkedSub_of_le {a b : Int64} (hb : 0 < b) (hle : b ≤ a) :
    ∃ v, checkedSub a b = some v ∧ 0 ≤ v.toInt ∧ b.toInt + v.toInt = a.toInt := by
  have hsub := Int64.toInt_sub_of_le a b (Int64.le_of_lt hb) hle
  have hb : 0 < b.toInt := Int64.lt_iff_toInt_lt.mp hb
  have hle := Int64.le_iff_toInt_le.mp hle
  have hmax := a.toInt_le
  have hrange : Int64.minValue.toInt ≤ a.toInt - b.toInt ∧
      a.toInt - b.toInt ≤ Int64.maxValue.toInt := by
    have hneg : Int64.minValue.toInt ≤ 0 := by decide
    omega
  exact ⟨a - b, if_pos hrange, by omega, by omega⟩

theorem ne_of_pos (h : 0 < v) : v ≠ 0 ∧ v ≠ -1 ∧ ¬v < 0 := by
  have h := Int64.lt_iff_toInt_lt.mp h
  refine ⟨?_, ?_, ?_⟩
  · intro heq
    subst heq
    exact absurd h (by decide)
  · intro heq
    subst heq
    exact absurd h (by decide)
  · intro hneg
    exact absurd (Int.lt_trans (Int64.lt_iff_toInt_lt.mp hneg) h) (Int.lt_irrefl _)

theorem swapForV2_unset : swapForV2 0 limit =
    some (.ok (if limit = some (-1) then some (-1) else none)) := by
  cases limit with
  | none => simp [swapForV2]
  | some v => by_cases h : v = -1 <;> simp [swapForV2, h]

theorem swapForV2_unlimited : swapForV2 (-1) limit = some (.ok (some (-1))) := by
  simp [swapForV2]

theorem swapForV2_refused (hswap : 0 < swap) (hv : 0 < v) (hlt : swap < v) :
    ∃ er, swapForV2 swap (some v) = some (.error er) := by
  obtain ⟨hzero, hnone, -⟩ := ne_of_pos hswap
  obtain ⟨hvzero, hvnone, hvneg⟩ := ne_of_pos hv
  refine ⟨.other s!"memory+swap limit {swap} should be >= memory limit {v}", ?_⟩
  simp only [swapForV2, Option.getD_some, hzero, hnone, hvzero, hvnone, hvneg, hlt, and_false,
    or_false, if_false, if_true]

theorem swapForV2_converted (hswap : 0 < swap) (hv : 0 < v) (hle : v ≤ swap) :
    ∃ u, swapForV2 swap (some v) = some (.ok (some u)) ∧ 0 ≤ u.toInt ∧
      v.toInt + u.toInt = swap.toInt := by
  obtain ⟨hzero, hnone, -⟩ := ne_of_pos hswap
  obtain ⟨hvzero, hvnone, hvneg⟩ := ne_of_pos hv
  obtain ⟨u, hsub, hpos, hsum⟩ := checkedSub_of_le hv hle
  have hnot : ¬swap < v := fun h => Int64.lt_irrefl (Int64.lt_of_lt_of_le h hle)
  exact ⟨u, by simp only [swapForV2, Option.getD_some, hzero, hnone, hvzero, hvnone, hvneg, hnot,
    hsub, and_false, or_false, if_false, Option.map_some], hpos, hsum⟩

/-- The subtraction is made only where it cannot overflow. -/
theorem swapForV2_isSome : (swapForV2 swap limit).isSome := by
  unfold swapForV2
  dsimp only
  split_ifs with _ _ _ hunset hneg hlt
  any_goals rfl
  have hpos : 0 < limit.getD 0 := by
    rcases Int64.lt_or_lt_of_ne hunset with h | h
    · exact absurd h hneg
    · exact h
  obtain ⟨v, hsub, -⟩ := checkedSub_of_le hpos (Int64.not_lt.mp hlt)
  rw [hsub]
  rfl

/-- The requested limit of memory if there is one, else the one in place. -/
def LinuxMemory.effective (memory : LinuxMemory) (inPlace : Int64) : Int64 :=
  memory.requested.getD inPlace

theorem against_of_pos (h : 0 < memory.swap.getD 0) :
    memory.against inPlace = some (memory.effective inPlace) := by
  unfold LinuxMemory.against LinuxMemory.effective
  cases memory.requested with
  | none => exact if_pos h
  | some limit => rfl

/-- A decided value is what the run writes, and a refusal leaves everything unwritten. -/
theorem swapWrites_of_decided {e : Ending (Except Error Unit)} {x : Option Int64}
    (hrun : (updateMemory true memory).run.Ends t e) (hreads : Reads inPlace t)
    (hdecided : memory.decided inPlace = some (.ok x)) : swapWrites t = x.toList := by
  rcases ends_updateMemory hrun hreads with ⟨v, hv, hwrites, -⟩ | ⟨er, her, -, -⟩ | hnone
  · rw [hdecided] at hv
    obtain rfl := Except.ok.inj (Option.some.inj hv)
    exact hwrites
  · rw [hdecided] at her
    cases her
  · rw [hdecided] at hnone
    cases hnone

theorem refused_of_decided {e : Ending (Except Error Unit)} {er : Error}
    (hrun : (updateMemory true memory).run.Ends t e) (hreads : Reads inPlace t)
    (hdecided : memory.decided inPlace = some (.error er)) :
    OnlyReads t ∧ e = .returned (.error er) := by
  rcases ends_updateMemory hrun hreads with ⟨v, hv, -, -⟩ | ⟨er', her, hquiet, hend⟩ | hnone
  · rw [hdecided] at hv
    cases hv
  · rw [hdecided] at her
    obtain rfl := Except.error.inj (Option.some.inj her)
    exact ⟨hquiet, hend⟩
  · rw [hdecided] at hnone
    cases hnone

/-- What a run of an update on v2 writes to the limit of swap. -/
theorem swap_comes_out (memory : LinuxMemory) (inPlace : Int64)
    (t : List (CgroupCall × CgroupAnswer)) (e : Ending (Except Error Unit))
    (hrun : (updateMemory true memory).run.Ends t e) (hreads : Reads inPlace t) :
    e ≠ .stopped .panic ∧
    (0 < memory.swap.getD 0 → 0 < memory.effective inPlace →
      (OnlyReads t ∧ (∃ er, e = .returned (.error er)) ↔
        memory.swap.getD 0 < memory.effective inPlace) ∧
      (memory.effective inPlace ≤ memory.swap.getD 0 → ∃ v, swapWrites t = [v] ∧ 0 ≤ v.toInt ∧
        (memory.effective inPlace).toInt + v.toInt = (memory.swap.getD 0).toInt)) ∧
    (memory.swap = some (-1) ∨ memory.limit = some (-1) ∧ memory.swap.getD 0 = 0 →
      swapWrites t = [-1]) ∧
    (memory.swap.getD 0 = 0 → (∀ limit, memory.requested = some limit → 0 < limit) →
      swapWrites t = []) := by
  refine ⟨?_, fun hswap heffective => ?_, fun hnone => ?_, fun hunset hpos => ?_⟩
  · have hsome : memory.decided inPlace ≠ none := Option.isSome_iff_ne_none.mp swapForV2_isSome
    rcases ends_updateMemory hrun hreads with ⟨v, -, -, hend⟩ | ⟨er, -, -, rfl⟩ | hnone
    · exact hend
    · simp
    · exact absurd hnone hsome
  · have hconverted : memory.effective inPlace ≤ memory.swap.getD 0 → ∃ v, swapWrites t = [v] ∧
        0 ≤ v.toInt ∧
        (memory.effective inPlace).toInt + v.toInt = (memory.swap.getD 0).toInt := by
      intro hle
      obtain ⟨v, hv, hrest⟩ := swapForV2_converted hswap heffective hle
      rw [← against_of_pos hswap] at hv
      exact ⟨v, swapWrites_of_decided hrun hreads hv, hrest⟩
    refine ⟨⟨?_, ?_⟩, hconverted⟩
    · intro hrefused
      by_contra hnot
      obtain ⟨v, hwrites, -⟩ := hconverted (Int64.not_lt.mp hnot)
      rw [swapWrites_reads hrefused.1] at hwrites
      cases hwrites
    · intro hlt
      obtain ⟨er, her⟩ := swapForV2_refused hswap heffective hlt
      rw [← against_of_pos hswap] at her
      obtain ⟨hquiet, hend⟩ := refused_of_decided hrun hreads her
      exact ⟨hquiet, er, hend⟩
  · have hdecided : memory.decided inPlace = some (.ok (some (-1))) := by
      rcases hnone with hswap | ⟨hlimit, hswap⟩
      · rw [LinuxMemory.decided, hswap]
        exact swapForV2_unlimited
      · have hagainst : memory.against inPlace = some (-1) := by
          rw [LinuxMemory.against, LinuxMemory.requested, hlimit, filter_isLimit (Or.inr rfl)]
        rw [LinuxMemory.decided, hswap, hagainst, swapForV2_unset]
        rfl
    exact swapWrites_of_decided hrun hreads hdecided
  · have hagainst : memory.against inPlace ≠ some (-1) := by
      unfold LinuxMemory.against
      rw [hunset]
      cases hrequested : memory.requested with
      | none => simp
      | some limit =>
        intro heq
        obtain rfl := Option.some.inj heq
        exact absurd (hpos _ hrequested) (by decide)
    have hdecided : memory.decided inPlace = some (.ok none) := by
      rw [LinuxMemory.decided, hunset, swapForV2_unset, if_neg hagainst]
    exact swapWrites_of_decided hrun hreads hdecided

/-- Memory and swap of 384 bytes beside a limit of 128 in place. -/
theorem swap_comes_out_converted :
    let t : List (CgroupCall × CgroupAnswer) :=
      [(.limitInBytes, .ok 128), (.setMemswapLimit 256, .ok 0)]
    ∃ v, swapWrites t = [v] ∧ 0 ≤ v.toInt ∧ (128 : Int64).toInt + v.toInt = (384 : Int64).toInt := by
  intro t
  have hrun : (updateMemory true { swap := some 384 }).run.Ends t (.returned (.ok ())) :=
    ⟨rfl, rfl, rfl, rfl⟩
  have hreads : Reads 128 t := by
    intro a ha
    simpa [t] using ha
  obtain ⟨-, hconverted, -⟩ := swap_comes_out { swap := some 384 } 128 t _ hrun hreads
  exact (hconverted (by decide) (by decide)).2 (by decide)

end V2
end RustExtensions.Shim
