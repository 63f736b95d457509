import RustExtensions.Shim.Mount
import RustExtensions.Shim.MountTable

/-!
# Unmounting a tree

`umount_recursive` lists the mounts at and below a target, longest path first,
and unmounts at each path until nothing is mounted there. The kernel keeps a
list of mounts, with the topmost at a path last. It refuses to unmount what
other mounts lie below.
-/
namespace RustExtensions.Shim

open RustExtensions.Fallible

namespace OsError

def einval : OsError := { code := 22, name := "EINVAL", desc := "Invalid argument" }

end OsError

structure MountNamespace where
  table : List MountInfo
  /-- The paths of which `metadata` says that they are not found. -/
  absent : String → Bool
  /-- The errors that `umount2` answered with. -/
  received : List OsError := []

/-- A program either fails or is still in its loop when the steps are used up. -/
inductive Unfinished where
  | failed (e : Error)
  | running

abbrev Unmounting := EStateM Unfinished MountNamespace

instance (target p : String) : Decidable (Below target p) :=
  inferInstanceAs (Decidable (_ <+: _))

namespace MountNamespace

/-- The table without the topmost mount at `p`. -/
def withoutTop (table : List MountInfo) (p : String) : List MountInfo :=
  (table.reverse.eraseP fun m => m.mountpoint = p).reverse

/-- `umount2` of a mount that nobody uses; no flags are given. -/
def umount2 (ns : MountNamespace) (p : String) : Except OsError (List MountInfo) :=
  if ∀ m ∈ ns.table, m.mountpoint ≠ p then .error OsError.einval
  else if ∃ m ∈ ns.table, Below p m.mountpoint then .error OsError.ebusy
  else .ok (withoutTop ns.table p)

/-- `get_mounts`, where the table is read as it is. -/
def getMounts (ns : MountNamespace) (f : Option (MountInfo → Bool)) : List MountInfo :=
  ns.table.filter fun m => !f.any (· m)

end MountNamespace

def umount2 (p : String) : Unmounting (Except OsError Unit) := fun ns =>
  match ns.umount2 p with
  | .ok table => .ok (.ok ()) { ns with table }
  | .error e => .ok (.error e) { ns with received := ns.received ++ [e] }

/-- The loop of `umount_all`, for at most as many steps. -/
def umountLoop (target : String) : Nat → Unmounting Unit
  | 0 => throw .running
  | steps + 1 => do
    match ← umount2 target with
    | .ok () => umountLoop target steps
    | .error e => if e = OsError.einval then return () else throw (.failed (.nix e.nix))

def umountAll (target : Option String) (steps : Nat) : Unmounting Unit := do
  match target with
  | none => return ()
  | some target =>
    if (← get).absent target then return ()
    umountLoop target steps

/-- `a` may stand before `b`: `b.mountpoint.len().cmp(&a.mountpoint.len())`. -/
def noShorter (a b : MountInfo) : Bool :=
  (Utf8.encode b.mountpoint).length ≤ (Utf8.encode a.mountpoint).length

def longestFirst (mounts : List MountInfo) : List MountInfo := mounts.mergeSort noShorter

def umountRecursive (target : Option String) (steps : Nat) : Unmounting Unit := do
  match target with
  | none => return ()
  | some target =>
    let mounts := (← get).getMounts (some (prefixFilter target))
    (longestFirst mounts).forM fun m => umountAll (some m.mountpoint) steps

variable {ns : MountNamespace} {table : List MountInfo} {m : MountInfo} {p s t : String}
  {steps : Nat}

/-! ## The table -/

theorem withoutTop_filter :
    (MountNamespace.withoutTop table p).filter (fun m => m.mountpoint ≠ p) =
      table.filter fun m => m.mountpoint ≠ p := by
  have herase : ∀ l : List MountInfo, (l.eraseP fun m => m.mountpoint = p).filter
      (fun m => m.mountpoint ≠ p) = l.filter fun m => m.mountpoint ≠ p := by
    intro l
    induction l with
    | nil => rfl
    | cons m l ih =>
      by_cases hm : m.mountpoint = p
      · simp [hm]
      · simp [hm] at ih ⊢
        exact ih
  rw [MountNamespace.withoutTop, List.filter_reverse, herase, List.filter_reverse,
    List.reverse_reverse]

theorem mem_withoutTop (hm : m ∈ MountNamespace.withoutTop table p) : m ∈ table := by
  rw [MountNamespace.withoutTop, List.mem_reverse] at hm
  exact List.mem_reverse.mp (List.mem_of_mem_eraseP hm)

/-- A mount at `p` is one less. -/
theorem length_withoutTop (h : ∃ m ∈ table, m.mountpoint = p) :
    (MountNamespace.withoutTop table p).length + 1 = table.length := by
  obtain ⟨m, hm, hp⟩ := h
  have hlen := List.length_eraseP_of_mem (List.mem_reverse.mpr hm)
    (p := fun m => m.mountpoint = p) (by simpa using hp)
  have hpos := List.length_pos_of_mem hm
  rw [MountNamespace.withoutTop, List.length_reverse, hlen, List.length_reverse]
  omega

theorem umount2_nothing (hat : ∀ m ∈ ns.table, m.mountpoint ≠ p) :
    umount2 p ns = .ok (.error OsError.einval) { ns with
      received := ns.received ++ [OsError.einval] } := by
  have hanswer : ns.umount2 p = .error OsError.einval := if_pos hat
  rw [umount2, hanswer]

theorem umount2_top (hat : ∃ m ∈ ns.table, m.mountpoint = p)
    (hbelow : ∀ m ∈ ns.table, ¬Below p m.mountpoint) :
    umount2 p ns = .ok (.ok ()) { ns with table := MountNamespace.withoutTop ns.table p } := by
  have hanswer : ns.umount2 p = .ok (MountNamespace.withoutTop ns.table p) := by
    rw [MountNamespace.umount2, if_neg (by simpa using hat), if_neg (by simpa using hbelow)]
  rw [umount2, hanswer]

/-- What an unmount loop leaves: the other mounts, and one error. -/
def MountNamespace.cleared (ns : MountNamespace) (p : String) : MountNamespace where
  table := ns.table.filter fun m => m.mountpoint ≠ p
  absent := ns.absent
  received := ns.received ++ [OsError.einval]

/-- Where nothing lies below, the loop ends with nothing mounted there. -/
theorem umountLoop_clears (hbelow : ∀ m ∈ ns.table, ¬Below p m.mountpoint)
    (hsteps : ns.table.length < steps) : umountLoop p steps ns = .ok () (ns.cleared p) := by
  induction steps generalizing ns with
  | zero => omega
  | succ steps ih =>
    rw [umountLoop]
    by_cases hat : ∃ m ∈ ns.table, m.mountpoint = p
    · have hlen := length_withoutTop hat
      have hfewer : (MountNamespace.withoutTop ns.table p).length < steps := by omega
      have hrest : umountLoop p steps { ns with table := MountNamespace.withoutTop ns.table p } =
          .ok () (MountNamespace.cleared { ns with
            table := MountNamespace.withoutTop ns.table p } p) :=
        ih (fun m hm => hbelow m (mem_withoutTop hm)) hfewer
      rw [MountNamespace.cleared, withoutTop_filter] at hrest
      exact bind_ok.mpr ⟨_, _, umount2_top hat hbelow, hrest⟩
    · have hnone : ∀ m ∈ ns.table, m.mountpoint ≠ p := fun m hm hp => hat ⟨m, hm, hp⟩
      refine bind_ok.mpr ⟨_, _, umount2_nothing hnone, ?_⟩
      have hsame : (ns.table.filter fun m => m.mountpoint ≠ p) = ns.table :=
        List.filter_eq_self.mpr fun m hm => decide_eq_true (hnone m hm)
      rw [MountNamespace.cleared, hsame]
      rfl

/-- A table of plain mounts is read as it is. -/
theorem getMounts_plain {ms : List KernelMount} {g : MountInfo → Bool} (h : ∀ m ∈ ms, m.Plain)
    (htable : ns.table = ms.map KernelMount.toInfo) :
    getMounts (some g) (render ms) = some (ns.getMounts (some g)) := by
  rw [KernelMount.getMounts_render, MountNamespace.getMounts, htable]
  exact mountsOfLines_filter fun m hm => KernelMount.ofLine_line.mpr (h m hm)

/-! ## The order -/

theorem Below.length_lt (h : Below t s) : (Utf8.encode t).length < (Utf8.encode s).length := by
  have hbytes := (Utf8.bytes_prefix_bytes h).length_le
  rw [String.toList_append, Utf8.bytes_append, List.length_append] at hbytes
  exact hbytes

theorem Below.trans {r : String} (h : Below t s) (hr : Below s r) : Below t r := by
  rw [Below, String.toList_append] at hr
  have hs : s.toList <+: r.toList := (List.prefix_append _ _).trans hr
  exact List.IsPrefix.trans h hs

theorem longestFirst_sorted (mounts : List MountInfo) :
    (longestFirst mounts).Pairwise fun a b => noShorter a b = true := by
  apply List.pairwise_mergeSort
  · intro a b c hab hbc
    simp only [noShorter, decide_eq_true_eq] at hab hbc ⊢
    omega
  · intro a b
    simp only [noShorter, Bool.or_eq_true, decide_eq_true_eq]
    omega

theorem mem_longestFirst {mounts : List MountInfo} : m ∈ longestFirst mounts ↔ m ∈ mounts :=
  (List.mergeSort_perm _ _).mem_iff

/-- What lies below a listed mount is itself listed. -/
def Closed (table mounts : List MountInfo) : Prop :=
  ∀ e ∈ table, ∀ m ∈ mounts, Below m.mountpoint e.mountpoint →
    ∃ m' ∈ mounts, m'.mountpoint = e.mountpoint

/-- What a run of unmount loops leaves. -/
def MountNamespace.clearedAll (ns : MountNamespace) (mounts : List MountInfo) : MountNamespace where
  table := ns.table.filter fun e => ∀ m ∈ mounts, e.mountpoint ≠ m.mountpoint
  absent := ns.absent
  received := ns.received ++ List.replicate mounts.length OsError.einval

theorem MountNamespace.cleared_clearedAll (mounts : List MountInfo) :
    (ns.cleared m.mountpoint).clearedAll mounts = ns.clearedAll (m :: mounts) := by
  have htable : (ns.table.filter fun e => e.mountpoint ≠ m.mountpoint).filter
      (fun e => ∀ m ∈ mounts, e.mountpoint ≠ m.mountpoint) =
      ns.table.filter fun e => ∀ m' ∈ m :: mounts, e.mountpoint ≠ m'.mountpoint := by
    rw [List.filter_filter]
    congr
    funext e
    rw [← Bool.decide_and, decide_eq_decide, List.forall_mem_cons, and_comm]
  simp only [clearedAll, cleared, htable, List.length_cons, List.replicate_succ,
    List.append_assoc, List.singleton_append]

/-- The longest path has nothing below it, so every mount is unmounted after those below it. -/
theorem umountEach_clears {mounts : List MountInfo}
    (hsorted : mounts.Pairwise fun a b => noShorter a b = true)
    (hclosed : Closed ns.table mounts) (hpresent : ∀ m ∈ mounts, ns.absent m.mountpoint = false)
    (hsteps : ns.table.length < steps) :
    mounts.forM (fun m => umountAll (some m.mountpoint) steps) ns =
      .ok () (ns.clearedAll mounts) := by
  induction mounts generalizing ns with
  | nil =>
    have hall : (ns.table.filter fun e => ∀ m ∈ ([] : List MountInfo),
        e.mountpoint ≠ m.mountpoint) = ns.table :=
      List.filter_eq_self.mpr fun e _ => by simp
    rw [MountNamespace.clearedAll, hall, List.length_nil, List.replicate_zero, List.append_nil]
    rfl
  | cons m mounts ih =>
    obtain ⟨hlongest, hsorted⟩ := List.pairwise_cons.mp hsorted
    have hbelow : ∀ e ∈ ns.table, ¬Below m.mountpoint e.mountpoint := by
      intro e he hbelow
      have hlt := hbelow.length_lt
      obtain ⟨m', hm', heq⟩ := hclosed e he m List.mem_cons_self hbelow
      rw [← heq] at hlt
      rcases List.mem_cons.mp hm' with rfl | hm'
      · omega
      · have hle := of_decide_eq_true (hlongest m' hm')
        omega
    have hfirst : umountAll (some m.mountpoint) steps ns = .ok () (ns.cleared m.mountpoint) := by
      rw [← umountLoop_clears hbelow hsteps]
      show (if ns.absent m.mountpoint = true then pure () else umountLoop _ steps) ns = _
      rw [hpresent m List.mem_cons_self]
      rfl
    have hfewer : (ns.cleared m.mountpoint).table.length ≤ ns.table.length :=
      List.length_filter_le _ _
    have hstill : Closed (ns.cleared m.mountpoint).table mounts := by
      intro e he b hb hunder
      obtain ⟨he, hother⟩ := List.mem_filter.mp he
      obtain ⟨m', hm', heq⟩ := hclosed e he b (List.mem_cons_of_mem m hb) hunder
      rcases List.mem_cons.mp hm' with rfl | hm'
      · exact absurd heq.symm (of_decide_eq_true hother)
      · exact ⟨m', hm', heq⟩
    have hrest := ih hsorted hstill (fun b hb => hpresent b (List.mem_cons_of_mem m hb))
      (Nat.lt_of_le_of_lt hfewer hsteps)
    rw [MountNamespace.cleared_clearedAll] at hrest
    exact bind_ok.mpr ⟨(), _, hfirst, hrest⟩

/-! ## The whole tree -/

theorem mem_listed {target : String} {e : MountInfo} :
    e ∈ longestFirst (ns.getMounts (some (prefixFilter target))) ↔
      e ∈ ns.table ∧ (e.mountpoint = target ∨ Below target e.mountpoint) := by
  rw [mem_longestFirst, MountNamespace.getMounts, List.mem_filter, ← prefixFilter_eq_false]
  simp

theorem closed_listed (ns : MountNamespace) (target : String) :
    Closed ns.table (longestFirst (ns.getMounts (some (prefixFilter target)))) := by
  intro e he m hm hbelow
  refine ⟨e, mem_listed.mpr ⟨he, Or.inr ?_⟩, rfl⟩
  rcases (mem_listed.mp hm).2 with heq | hm
  · exact heq ▸ hbelow
  · exact hm.trans hbelow

instance (target p : String) : Decidable (AtOrBelow target p) :=
  inferInstanceAs (Decidable (_ ∨ _))

/-- Enough steps end the program with the tree unmounted and nothing else. -/
theorem umountRecursive_clears (ns : MountNamespace) (target : String)
    (hslash : target.toList.getLast? ≠ some '/')
    (hpresent : ∀ m ∈ ns.table, ns.absent m.mountpoint = false) :
    ∃ n ns', (∀ steps ≥ n, umountRecursive (some target) steps ns = .ok () ns') ∧
      (∃ errors, ns'.received = ns.received ++ errors ∧ OsError.ebusy ∉ errors) ∧
      ns'.table = ns.table.filter fun m => ¬AtOrBelow target m.mountpoint := by
  obtain ⟨mounts, hmounts⟩ : ∃ mounts, mounts =
      longestFirst (ns.getMounts (some (prefixFilter target))) := ⟨_, rfl⟩
  refine ⟨ns.table.length + 1, ns.clearedAll mounts, ?_, ?_, ?_⟩
  · intro steps hsteps
    have hlisted : ∀ m ∈ mounts, ns.absent m.mountpoint = false := by
      intro m hm
      rw [hmounts] at hm
      exact hpresent m (mem_listed.mp hm).1
    have hclosed : Closed ns.table mounts := by
      rw [hmounts]
      exact closed_listed ns target
    have hsorted := longestFirst_sorted (ns.getMounts (some (prefixFilter target)))
    rw [← hmounts] at hsorted
    rw [← umountEach_clears hsorted hclosed hlisted hsteps, hmounts]
    rfl
  · refine ⟨_, rfl, ?_⟩
    intro hbusy
    have heinval := (List.mem_replicate.mp hbusy).2
    exact absurd heinval (by decide)
  · show ns.table.filter _ = _
    apply List.filter_congr
    intro e he
    rw [decide_eq_decide, atOrBelow_iff hslash, hmounts]
    constructor
    · intro h hbelow
      exact h e (mem_listed.mpr ⟨he, hbelow⟩) rfl
    · intro h m hm heq
      have hm := (mem_listed.mp hm).2
      rw [← heq] at hm
      exact h hm

/-- Two mounts on top of each other, one below them and one beside them. -/
def stackedMounts : MountNamespace where
  table := ["/a", "/a/b", "/a", "/ab"].map fun p =>
    ⟨1, 1, 1, 1, "/", p, "rw", "", "ext3", "none", "rw"⟩
  absent := fun _ => false

theorem stackedMounts_cleared :
    ∃ n ns', (∀ steps ≥ n, umountRecursive (some "/a") steps stackedMounts = .ok () ns') ∧
      (∃ errors, ns'.received = stackedMounts.received ++ errors ∧ OsError.ebusy ∉ errors) ∧
      ns'.table = stackedMounts.table.filter fun m => ¬AtOrBelow "/a" m.mountpoint :=
  umountRecursive_clears stackedMounts "/a" (by decide) (fun _ _ => rfl)

end RustExtensions.Shim
