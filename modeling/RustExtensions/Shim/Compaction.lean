import Mathlib.Data.List.Forall2
import RustExtensions.Lib.Prefix
import RustExtensions.Shim.Lowerdir

/-!
# What compaction does to the lower directories

The helpers of the compactor work on bytes: they find the longest common prefix
of the directories and cut it behind its last slash. A slice at a place where
no character begins panics, so does one behind the end.
-/
namespace RustExtensions.Shim

open RustExtensions.Utf8
open RustExtensions.Prefix

variable {cs r : List Char} {s t : String} {dirs : List String} {n i : Nat}

/-! ## Slices -/

theorem takeBytes_eq_some : takeBytes cs n = some r ↔ r <+: cs ∧ (bytes r).length = n := by
  induction cs generalizing n r with
  | nil =>
    cases n with
    | zero =>
      simp only [takeBytes, Option.some.injEq, List.prefix_nil]
      constructor
      · intro hr
        exact ⟨hr.symm, by rw [← hr]; rfl⟩
      · exact fun h => h.1.symm
    | succ n =>
      simp only [takeBytes, reduceCtorEq, List.prefix_nil, false_iff, not_and]
      intro hr
      simp [hr]
  | cons c cs ih =>
    cases n with
    | zero =>
      have hpos := c.utf8Size_pos
      simp only [takeBytes, Option.some.injEq]
      constructor
      · intro hr
        subst hr
        have hnil : [] <+: c :: cs := List.nil_prefix
        exact ⟨hnil, rfl⟩
      · intro h
        obtain ⟨-, hlen⟩ := h
        cases r with
        | nil => rfl
        | cons d r =>
          have hsize := d.utf8Size_pos
          rw [length_bytes_cons] at hlen
          omega
    | succ n =>
      have hpos := c.utf8Size_pos
      cases r with
      | nil =>
        rw [takeBytes]
        split <;> simp
      | cons d r =>
        rw [takeBytes, List.prefix_cons_iff, length_bytes_cons]
        simp only [reduceCtorEq, List.cons.injEq, false_or]
        constructor
        · intro h
          split at h
          · next hfits =>
            obtain ⟨r', hr', heq⟩ := Option.map_eq_some_iff.mp h
            obtain ⟨rfl, rfl⟩ := List.cons.inj heq
            obtain ⟨hbegins, hlen⟩ := ih.mp hr'
            exact ⟨⟨r', ⟨rfl, rfl⟩, hbegins⟩, by omega⟩
          · cases h
        · intro h
          obtain ⟨⟨r', ⟨rfl, rfl⟩, hbegins⟩, hlen⟩ := h
          rw [if_pos (by omega), ih.mpr ⟨hbegins, by omega⟩]
          rfl

theorem sliceTo_eq_some : sliceTo s n = some t ↔ t.toList <+: s.toList ∧ (encode t).length = n := by
  rw [sliceTo, Option.map_eq_some_iff]
  constructor
  · intro h
    obtain ⟨r, hr, rfl⟩ := h
    rw [takeBytes_eq_some] at hr
    rwa [encode, String.toList_ofList]
  · intro h
    exact ⟨t.toList, takeBytes_eq_some.mpr h, String.ofList_toList⟩

/-- The characters begin where those before them end. -/
theorem isCharBoundary_iff : IsCharBoundary (bytes cs) i ↔ ∃ r, r <+: cs ∧ (bytes r).length = i := by
  induction cs generalizing i with
  | nil =>
    simp only [IsCharBoundary, List.prefix_nil, exists_eq_left]
    simp [eq_comm]
  | cons c cs ih =>
    have hpos := c.utf8Size_pos
    have hlen := String.length_utf8EncodeChar c
    by_cases hzero : i = 0
    · subst hzero
      exact ⟨fun _ => ⟨[], List.nil_prefix, rfl⟩, fun _ => Or.inl rfl⟩
    have hright : (∃ r, r <+: c :: cs ∧ (bytes r).length = i) ↔
        ∃ r, r <+: cs ∧ c.utf8Size + (bytes r).length = i := by
      constructor
      · intro hexists
        obtain ⟨r, hr, hi⟩ := hexists
        rcases List.prefix_cons_iff.mp hr with rfl | ⟨r', rfl, hr'⟩
        · exact absurd hi.symm hzero
        · exact ⟨r', hr', by rw [← length_bytes_cons, hi]⟩
      · intro hexists
        obtain ⟨r, hr, hi⟩ := hexists
        exact ⟨c :: r, (List.prefix_cons_inj c).mpr hr, by rw [length_bytes_cons, hi]⟩
    rw [hright, IsCharBoundary, length_bytes_cons, bytes_cons]
    by_cases hinside : i < c.utf8Size
    · rw [List.getElem?_append_left (hlen ▸ hinside)]
      have hcontinues := (isContinuation_getElem (hlen ▸ hinside)).mpr hzero
      constructor
      · intro h
        rcases h with h | h | ⟨b, hb, hfirst⟩
        · exact absurd h hzero
        · omega
        · rw [List.getElem?_eq_getElem (hlen ▸ hinside)] at hb
          obtain rfl := Option.some.inj hb
          exact absurd hcontinues hfirst
      · intro hexists
        obtain ⟨r, -, hi⟩ := hexists
        omega
    · obtain ⟨j, rfl⟩ : ∃ j, i = c.utf8Size + j := ⟨i - c.utf8Size, by omega⟩
      have hadd : (∃ r, r <+: cs ∧ c.utf8Size + (bytes r).length = c.utf8Size + j) ↔
          ∃ r, r <+: cs ∧ (bytes r).length = j := by
        simp only [Nat.add_left_cancel_iff]
      rw [hadd, ← ih, List.getElem?_append_right (by omega), hlen, Nat.add_sub_cancel_left]
      simp only [hzero, false_or, Nat.add_left_cancel_iff, IsCharBoundary]
      constructor
      · exact Or.inr
      · intro h
        rcases h with rfl | h
        · cases cs with
          | nil => exact Or.inl rfl
          | cons d cs =>
            have hd : 0 < (String.utf8EncodeChar d).length := by
              rw [String.length_utf8EncodeChar]
              exact d.utf8Size_pos
            refine Or.inr ⟨(String.utf8EncodeChar d)[0], ?_, ?_⟩
            · rw [bytes_cons, List.getElem?_append_left hd]
              exact List.getElem?_eq_getElem hd
            · intro hcontinues
              exact (isContinuation_getElem hd).mp hcontinues rfl
        · exact h

/-- The loop stops at the last boundary that is not behind `i`. -/
theorem boundaryBelow_spec (bs : List UInt8) (i : Nat) :
    IsCharBoundary bs (boundaryBelow bs i) ∧ boundaryBelow bs i ≤ i ∧
      ∀ j ≤ i, IsCharBoundary bs j → j ≤ boundaryBelow bs i := by
  induction i with
  | zero => exact ⟨Or.inl rfl, Nat.le_refl 0, fun j hj _ => hj⟩
  | succ i ih =>
    rw [boundaryBelow]
    split
    · next hboundary => exact ⟨hboundary, Nat.le_refl _, fun j hj _ => hj⟩
    · next hinside =>
      obtain ⟨hboundary, hle, hlast⟩ := ih
      refine ⟨hboundary, by omega, fun j hj hb => hlast j ?_ hb⟩
      rcases Nat.lt_or_eq_of_le hj with hj | rfl
      · omega
      · exact absurd hb hinside

/-! ## The longest common prefix -/

/-- Where all directories have the bytes of the first, up to `n`. -/
theorem bytes_prefix_of_agree {first : String} {p : List Char} (hfirst : p <+: first.toList)
    (hagree : ∀ j < n, ∀ d ∈ dirs, (encode d)[j]? = (encode first)[j]?)
    (hlen : (bytes p).length ≤ n) {d : String} (hd : d ∈ dirs) : p <+: d.toList := by
  apply prefix_of_bytes
  rw [List.prefix_iff_getElem?]
  intro j hj
  have hbyte := List.prefix_iff_getElem?.mp (bytes_prefix_bytes hfirst) j hj
  have hsame := hagree j (by omega) d hd
  exact hsame.trans hbyte

theorem longestCommonPrefix_spec (hne : dirs ≠ []) :
    ∃ p, longestCommonPrefix dirs = some p ∧ Longest p.toList (dirs.map String.toList) := by
  obtain ⟨first, rest, rfl⟩ := List.exists_cons_of_ne_nil hne
  rw [longestCommonPrefix]
  have hmem : first ∈ first :: rest := List.mem_cons_self
  split
  · next i hfind =>
    obtain ⟨hdiffer, hi, hbefore⟩ := List.find?_range_eq_some.mp hfind
    have hagree : ∀ j < i, ∀ d ∈ first :: rest, (encode d)[j]? = (encode first)[j]? := by
      intro j hj d hd
      have hnone := hbefore j hj
      simp only [Bool.not_eq_true', List.any_eq_false, decide_eq_true_eq, not_not] at hnone
      exact hnone d hd
    obtain ⟨hboundary, hle, hlast⟩ := boundaryBelow_spec (encode first) i
    obtain ⟨p, hp, hlen⟩ := isCharBoundary_iff.mp hboundary
    refine ⟨String.ofList p, sliceTo_eq_some.mpr ⟨?_, ?_⟩, ?_, ?_⟩
    · rwa [String.toList_ofList]
    · rwa [encode, String.toList_ofList]
    · intro l hl
      obtain ⟨d, hd, rfl⟩ := List.mem_map.mp hl
      rw [String.toList_ofList]
      exact bytes_prefix_of_agree hp hagree (by omega) hd
    · intro q hq
      have hfirst : q <+: first.toList := hq _ (List.mem_map_of_mem hmem)
      have hq_le : (bytes q).length ≤ i := by
        -- otherwise `q` covers the byte at which a directory differs
        by_contra hgt
        obtain ⟨d, hd, hne⟩ := List.any_eq_true.mp hdiffer
        have hdq := List.prefix_iff_getElem?.mp (bytes_prefix_bytes (hq _ (List.mem_map_of_mem hd)))
        have hfq := List.prefix_iff_getElem?.mp (bytes_prefix_bytes hfirst)
        have hsame := (hdq i (by omega)).trans (hfq i (by omega)).symm
        exact (of_decide_eq_true hne) hsame
      have hend := hlast _ hq_le (isCharBoundary_iff.mpr ⟨q, hfirst, rfl⟩)
      rw [String.toList_ofList]
      apply prefix_of_bytes
      exact List.prefix_of_prefix_length_le (bytes_prefix_bytes hfirst) (bytes_prefix_bytes hp)
        (by omega)
  · next hfind =>
    have hagree : ∀ j < (encode first).length, ∀ d ∈ first :: rest,
        (encode d)[j]? = (encode first)[j]? := by
      intro j hj d hd
      have hnone := List.find?_eq_none.mp hfind j (List.mem_range.mpr hj)
      simp only [List.any_eq_true, not_exists, not_and, decide_eq_true_eq, not_not] at hnone
      exact hnone d hd
    refine ⟨first, rfl, ?_, fun q hq => hq _ (List.mem_map_of_mem hmem)⟩
    intro l hl
    obtain ⟨d, hd, rfl⟩ := List.mem_map.mp hl
    exact bytes_prefix_of_agree List.prefix_rfl hagree (Nat.le_refl _) hd

/-- All strings begin with what is found, it ends between two characters, and whatever whole
characters they all begin with, it begins with as well. -/
theorem common_prefix_longest (dirs : List String) :
    ∃ p, longestCommonPrefix dirs = some p ∧
      (∀ d ∈ dirs, encode p <+: encode d ∧ IsCharBoundary (encode d) (encode p).length) ∧
      (dirs = [] → p = "") ∧
      (dirs ≠ [] → ∀ q, (∀ d ∈ dirs, encode q <+: encode d) → encode q <+: encode p) := by
  by_cases hnil : dirs = []
  · subst hnil
    exact ⟨"", rfl, fun d hd => absurd hd List.not_mem_nil, fun _ => rfl, fun hne => absurd rfl hne⟩
  · obtain ⟨p, hp, hlongest⟩ := longestCommonPrefix_spec hnil
    refine ⟨p, hp, fun d hd => ?_, fun heq => absurd heq hnil, fun _ q hq => ?_⟩
    · have hbegins : p.toList <+: d.toList := hlongest.common _ (List.mem_map_of_mem hd)
      exact ⟨bytes_prefix_bytes hbegins, isCharBoundary_iff.mpr ⟨p.toList, hbegins, rfl⟩⟩
    · apply bytes_prefix_bytes
      apply hlongest.longest
      intro l hl
      obtain ⟨d, hd, rfl⟩ := List.mem_map.mp hl
      exact prefix_of_bytes (hq d hd)

/-! ## Cutting back to a slash -/

theorem find?_reverse_range {p : Nat → Bool} : (List.range n).reverse.find? p = some i ↔
    p i = true ∧ i < n ∧ ∀ j, i < j → j < n → p j = false := by
  induction n with
  | zero => simp
  | succ n ih =>
    rw [List.range_succ, List.reverse_append, List.reverse_singleton, List.singleton_append,
      List.find?_cons]
    cases hp : p n with
    | true =>
      simp only [Option.some.injEq]
      constructor
      · intro hn
        subst hn
        exact ⟨hp, by omega, fun j _ _ => by omega⟩
      · intro h
        obtain ⟨-, hi, hafter⟩ := h
        by_contra hne
        have hfalse := hafter n (by omega) (by omega)
        rw [hp] at hfalse
        cases hfalse
    | false =>
      simp only [ih]
      constructor
      · intro h
        obtain ⟨hpi, hi, hafter⟩ := h
        refine ⟨hpi, by omega, fun j hj hjn => ?_⟩
        by_cases hlast : j = n
        · rw [hlast, hp]
        · exact hafter j hj (by omega)
      · intro h
        obtain ⟨hpi, hi, hafter⟩ := h
        refine ⟨hpi, ?_, fun j hj hjn => hafter j hj (by omega)⟩
        have hne : i ≠ n := by
          intro heq
          rw [heq, hp] at hpi
          cases hpi
        omega

theorem slash_bytes : String.utf8EncodeChar '/' = [0x2F] := by decide

theorem rfindSlash_last {u b : List Char} (hs : s.toList = u ++ '/' :: b) (hb : '/' ∉ b) :
    rfindSlash s = some (bytes u).length := by
  have hbytes : encode s = bytes u ++ 0x2F :: bytes b := by
    rw [encode, hs]
    show bytes (u ++ '/' :: b) = _
    rw [bytes_append, bytes_cons, slash_bytes, List.singleton_append]
  have hrest : (0x2F : UInt8) ∉ bytes b := (mem_bytes slash_bytes).not.mpr hb
  rw [rfindSlash, find?_reverse_range, hbytes]
  refine ⟨by simp, by simp, fun j hj _ => ?_⟩
  obtain ⟨k, rfl⟩ : ∃ k, j = (bytes u).length + (k + 1) := ⟨j - (bytes u).length - 1, by omega⟩
  rw [List.getElem?_append_right (by omega), Nat.add_sub_cancel_left, List.getElem?_cons_succ,
    decide_eq_false_iff_not]
  exact fun hk => hrest (List.mem_of_getElem? hk)

theorem rfindSlash_none (hs : '/' ∉ s.toList) : rfindSlash s = none := by
  have hbytes : (0x2F : UInt8) ∉ encode s := (mem_bytes slash_bytes).not.mpr hs
  rw [rfindSlash, List.find?_eq_none]
  intro i _
  rw [decide_eq_true_eq]
  exact fun hi => hbytes (List.mem_of_getElem? hi)

/-- With a slash, all that is behind the last one goes. -/
theorem trimFlawedDir_last {u b : List Char} (hs : s.toList = u ++ '/' :: b) (hb : '/' ∉ b) :
    trimFlawedDir s = some (String.ofList (u ++ ['/'])) := by
  rw [trimFlawedDir, rfindSlash_last hs hb, Option.getD_some, sliceTo_eq_some, String.toList_ofList,
    hs]
  refine ⟨⟨b, by simp⟩, ?_⟩
  show (bytes (String.ofList (u ++ ['/'])).toList).length = _
  rw [String.toList_ofList, bytes_append, List.length_append, bytes_cons, slash_bytes]
  rfl

/-- Without one, the first byte is kept. -/
theorem trimFlawedDir_none (hs : '/' ∉ s.toList) :
    trimFlawedDir s = some t ↔ ∃ c, c.utf8Size = 1 ∧ t = String.ofList [c] ∧ s.toList.head? = some c := by
  rw [trimFlawedDir, rfindSlash_none hs, Option.getD_none, sliceTo_eq_some]
  constructor
  · intro h
    obtain ⟨hbegins, hlen⟩ := h
    change (bytes t.toList).length = 1 at hlen
    cases ht : t.toList with
    | nil =>
      rw [ht] at hlen
      cases hlen
    | cons c r =>
      rw [ht, length_bytes_cons] at hlen
      have hpos := c.utf8Size_pos
      have hr : r = [] := by
        cases r with
        | nil => rfl
        | cons d r =>
          have hd := d.utf8Size_pos
          rw [length_bytes_cons] at hlen
          omega
      subst hr
      refine ⟨c, by simpa using hlen, ?_, ?_⟩
      · rw [← ht, String.ofList_toList]
      · rw [ht] at hbegins
        exact head_iff_prefixed.mpr hbegins
  · intro hexists
    obtain ⟨c, hsize, rfl, hhead⟩ := hexists
    rw [String.toList_ofList]
    refine ⟨head_iff_prefixed.mp hhead, ?_⟩
    show (bytes (String.ofList [c]).toList).length = 1
    rw [String.toList_ofList, length_bytes_cons, hsize]
    rfl

/-! ## What the compactor returns -/

/-- The components of all `lowerdir=` options. -/
def components (options : List String) : List String :=
  (options.filterMap (stripPrefix · overlayLowerdirPrefix)).flatMap splitColon

/-- The directories begin with the same path up to a slash. -/
def ShareParent (dirs : List String) : Prop :=
  ∃ q, ∀ d ∈ dirs, q ++ ['/'] <+: d.toList

/-- The directories begin with the same character, and that is one byte. -/
def ShareAscii (dirs : List String) : Prop :=
  ∃ c : Char, c.utf8Size = 1 ∧ ∀ d ∈ dirs, [c] <+: d.toList

/-- The directories have more in common, up to a slash, than the root. -/
def SharePath (dirs : List String) : Prop :=
  ∃ q ≠ [], ∀ d ∈ dirs, q ++ ['/'] <+: d.toList

theorem prefix_iff_common {p : String} {q : List Char}
    (h : Longest p.toList (dirs.map String.toList)) :
    q <+: p.toList ↔ ∀ d ∈ dirs, q <+: d.toList := by
  rw [h.prefix_iff, List.forall_mem_map]

theorem slash_iff_shareParent {p : String} (h : Longest p.toList (dirs.map String.toList)) :
    '/' ∈ p.toList ↔ ShareParent dirs := by
  rw [mem_iff_prefixed, ShareParent]
  simp only [prefix_iff_common h]

theorem ofList_eq_iff : String.ofList cs = s ↔ cs = s.toList := by
  rw [← String.toList_inj, String.toList_ofList]

/-- The components without the directory they all begin with. -/
def behind (options : List String) (dir : String) : List String :=
  (components options).map fun d => (stripPrefix d dir).getD d

/-- The values of the options once the directory is known. -/
def replaceLowerdirs (options : List String) (dir x : String) : String :=
  if (stripPrefix x overlayLowerdirPrefix).isSome then
    overlayLowerdirPrefix ++ String.intercalate ":" (behind options dir)
  else x

/-- What the compactor does with the options; `none` is its panic. -/
inductive Compaction (options : List String) : Option (Option String × List String) → Prop
  | single (hlen : (components options).length ≤ 1) : Compaction options (some (none, options))
  | root (hlen : 1 < (components options).length) (hparent : ShareParent (components options))
      (hroot : ¬SharePath (components options)) : Compaction options (some (none, options))
  | parent (hlen : 1 < (components options).length) (u : List Char) (hu : u ≠ [])
      (hcommon : ∀ d ∈ components options, u ++ ['/'] <+: d.toList)
      (hlast : ∀ q, (∀ d ∈ components options, q ++ ['/'] <+: d.toList) →
        q ++ ['/'] <+: u ++ ['/']) :
      Compaction options (some (some (String.ofList (u ++ ['/'])),
        options.map (replaceLowerdirs options (String.ofList (u ++ ['/'])))))
  | ascii (hlen : 1 < (components options).length) (hparent : ¬ShareParent (components options))
      (c : Char) (hsize : c.utf8Size = 1) (hcommon : ∀ d ∈ components options, [c] <+: d.toList) :
      Compaction options (some (some (String.ofList [c]),
        options.map (replaceLowerdirs options (String.ofList [c]))))
  | unrelated (hlen : 1 < (components options).length)
      (hparent : ¬ShareParent (components options)) (hascii : ¬ShareAscii (components options)) :
      Compaction options none

namespace LowerdirCompactor

variable {c : LowerdirCompactor}

theorem setLowerdirPrefix_single (h : c.lowerdirs = some dirs) (hlen : dirs.length ≤ 1) :
    c.setLowerdirPrefix = some { c with lowerdirPrefix := none } := by
  have hfilter : c.lowerdirs.filter (·.length > 1) = none := by
    rw [h, Option.filter_some, if_neg (by simpa using hlen)]
  unfold setLowerdirPrefix
  rw [hfilter]

theorem setLowerdirPrefix_many {p : String} (h : c.lowerdirs = some dirs) (hlen : 1 < dirs.length)
    (hp : longestCommonPrefix dirs = some p) :
    c.setLowerdirPrefix = (trimFlawedDir p).map fun dir =>
      { c with lowerdirPrefix := (some dir).filter fun x => x ≠ "" && x ≠ "/" } := by
  have hfilter : c.lowerdirs.filter (·.length > 1) = some dirs := by
    rw [h, Option.filter_some, if_pos (by simpa using hlen)]
  unfold setLowerdirPrefix
  rw [hfilter]
  dsimp only
  rw [hp, Option.map_eq_bind]
  rfl

end LowerdirCompactor

theorem compact_of_lcp {options : List String} {p : String}
    (hlen : 1 < (components options).length)
    (hp : longestCommonPrefix (components options) = some p) :
    (LowerdirCompactor.mk options none none).compact = (trimFlawedDir p).map fun dir =>
      if dir ≠ "" ∧ dir ≠ "/" then (some dir, options.map (replaceLowerdirs options dir))
      else (none, options) := by
  let c := (LowerdirCompactor.mk options none none).setLowerdirs
  have hdirs : c.lowerdirs = some (components options) := rfl
  rw [LowerdirCompactor.compact, LowerdirCompactor.setLowerdirPrefix_many hdirs hlen hp]
  cases trimFlawedDir p with
  | none => rfl
  | some dir =>
    rw [Option.map_some, Option.map_some]
    by_cases hdir : dir ≠ "" ∧ dir ≠ "/"
    · have hkept : (some dir).filter (fun x => x ≠ "" && x ≠ "/") = some dir := by
        rw [Option.filter_some, if_pos (by simpa using hdir)]
      rw [if_pos hdir, hkept]
      rfl
    · have hnone : (some dir).filter (fun x => x ≠ "" && x ≠ "/") = none := by
        rw [Option.filter_some, if_neg (by simpa using hdir)]
      rw [if_neg hdir, hnone]
      rfl

theorem compaction (options : List String) :
    Compaction options (LowerdirCompactor.mk options none none).compact := by
  by_cases hlen : 1 < (components options).length
  · have hne : components options ≠ [] := by
      intro hnil
      rw [hnil] at hlen
      cases hlen
    obtain ⟨p, hp, hlongest⟩ := longestCommonPrefix_spec hne
    rw [compact_of_lcp hlen hp]
    by_cases hslash : '/' ∈ p.toList
    · have hparent : ShareParent (components options) := (slash_iff_shareParent hlongest).mp hslash
      obtain ⟨u, b, hu, hb⟩ := exists_last hslash
      have hbegins : u ++ ['/'] <+: p.toList := ⟨b, by rw [hu, List.append_assoc]; rfl⟩
      have hlast : ∀ q, (∀ d ∈ components options, q ++ ['/'] <+: d.toList) →
          q ++ ['/'] <+: u ++ ['/'] := by
        intro q hq
        exact prefix_of_last hu hb ((prefix_iff_common hlongest).mpr hq)
      have hempty : String.ofList (u ++ ['/']) ≠ "" := by
        rw [Ne, ofList_eq_iff]
        exact List.append_ne_nil_of_right_ne_nil u (List.cons_ne_nil _ _)
      have hroot : String.ofList (u ++ ['/']) = "/" ↔ u = [] := by
        rw [ofList_eq_iff]
        show u ++ ['/'] = ['/'] ↔ u = []
        exact List.append_left_eq_self
      rw [trimFlawedDir_last hu hb, Option.map_some]
      by_cases hunil : u = []
      · rw [if_neg fun hdir => hdir.2 (hroot.mpr hunil)]
        apply Compaction.root hlen hparent
        intro hexists
        obtain ⟨q, hq, hcommon⟩ := hexists
        have hle := (hlast q hcommon).length_le
        have hpos := List.length_pos_iff.mpr hq
        rw [hunil, List.length_append, List.nil_append] at hle
        omega
      · rw [if_pos ⟨hempty, hroot.not.mpr hunil⟩]
        exact Compaction.parent hlen u hunil ((prefix_iff_common hlongest).mp hbegins) hlast
    · have hparent : ¬ShareParent (components options) :=
        (slash_iff_shareParent hlongest).not.mp hslash
      cases hdir : trimFlawedDir p with
      | none =>
        apply Compaction.unrelated hlen hparent
        intro hexists
        obtain ⟨c, hsize, hcommon⟩ := hexists
        have hhead := head_iff_prefixed.mpr ((prefix_iff_common hlongest).mpr hcommon)
        have hsome := (trimFlawedDir_none hslash).mpr ⟨c, hsize, rfl, hhead⟩
        rw [hdir] at hsome
        cases hsome
      | some dir =>
        obtain ⟨c, hsize, rfl, hhead⟩ := (trimFlawedDir_none hslash).mp hdir
        have hc : c ≠ '/' := by
          intro heq
          subst heq
          exact hslash (List.mem_of_mem_head? hhead)
        have hdir : String.ofList [c] ≠ "" ∧ String.ofList [c] ≠ "/" := by
          rw [Ne, Ne, ofList_eq_iff, ofList_eq_iff]
          exact ⟨List.cons_ne_nil _ _, fun heq => hc (List.head_eq_of_cons_eq heq)⟩
        rw [Option.map_some, if_pos hdir]
        exact Compaction.ascii hlen hparent c hsize
          ((prefix_iff_common hlongest).mp (head_iff_prefixed.mp hhead))
  · have hdirs : (LowerdirCompactor.mk options none none).setLowerdirs.lowerdirs =
        some (components options) := rfl
    rw [LowerdirCompactor.compact, LowerdirCompactor.setLowerdirPrefix_single hdirs (by omega)]
    exact Compaction.single (by omega)

/-- The compactor panics where more than one directory are given that have neither a
parent in common nor their first byte, as a character. -/
theorem compact_returns_iff (options : List String) :
    (LowerdirCompactor.mk options none none).compact ≠ none ↔
      (components options).length ≤ 1 ∨ ShareParent (components options) ∨
        ShareAscii (components options) := by
  have h := compaction options
  generalize (LowerdirCompactor.mk options none none).compact = r at h
  cases h with
  | single hlen => exact ⟨fun _ => Or.inl hlen, fun _ => by simp⟩
  | root _ hparent => exact ⟨fun _ => Or.inr (Or.inl hparent), fun _ => by simp⟩
  | parent _ u _ hcommon => exact ⟨fun _ => Or.inr (Or.inl ⟨u, hcommon⟩), fun _ => by simp⟩
  | ascii _ _ c hsize hcommon =>
    exact ⟨fun _ => Or.inr (Or.inr ⟨c, hsize, hcommon⟩), fun _ => by simp⟩
  | unrelated hlen hparent hascii =>
    have hshort : ¬(components options).length ≤ 1 := by omega
    simp only [ne_eq, not_true_eq_false, hshort, hparent, hascii, or_self]

theorem unrelated_lowerdirs_panic :
    ¬∀ options : List String, (LowerdirCompactor.mk options none none).compact ≠ none := by
  intro h
  exact h ["lowerdir=a:b"] (by decide +kernel)

/-! ## What the options mean -/

theorem stripPrefix_eq_some {pre : String} : stripPrefix s pre = some t ↔ s = pre ++ t := by
  rw [stripPrefix, Option.ite_none_right_eq_some, List.isPrefixOf_iff_prefix]
  constructor
  · intro h
    obtain ⟨⟨r, hr⟩, ht⟩ := h
    rw [← hr, List.drop_left] at ht
    obtain rfl := Option.some.inj ht
    apply String.ext
    rw [String.toList_append, String.toList_ofList, hr]
  · intro h
    subst h
    refine ⟨⟨t.toList, String.toList_append.symm⟩, ?_⟩
    rw [String.toList_append, List.drop_left, String.ofList_toList]

theorem stripPrefix_append (pre t : String) : stripPrefix (pre ++ t) pre = some t :=
  stripPrefix_eq_some.mpr rfl

theorem not_colon_of_mem_splitColon (h : t ∈ splitColon s) : ':' ∉ t.toList := by
  obtain ⟨l, hl, rfl⟩ := List.mem_map.mp h
  rw [String.toList_ofList]
  exact not_mem_of_mem_splitOn hl

theorem splitColon_ne_nil (s : String) : splitColon s ≠ [] := by
  intro h
  exact List.splitOn_ne_nil ':' s.toList (List.map_eq_nil_iff.mp h)

/-- Splitting undoes joining, where no part has a colon. -/
theorem splitColon_intercalate (hne : dirs ≠ []) (h : ∀ d ∈ dirs, ':' ∉ d.toList) :
    splitColon (String.intercalate ":" dirs) = dirs := by
  have hparts : ∀ l ∈ dirs.map String.toList, ':' ∉ l := by
    rw [List.forall_mem_map]
    exact h
  have hmap : dirs.map String.toList ≠ [] := List.map_eq_nil_iff.not.mpr hne
  rw [splitColon, String.toList_intercalate]
  show (([':'].intercalate (dirs.map String.toList)).splitOn ':').map String.ofList = dirs
  rw [List.splitOn_intercalate ':' hparts hmap, List.map_map]
  have hid : String.ofList ∘ String.toList = id := funext fun _ => String.ofList_toList
  rw [hid, List.map_id]

/-- What the option `y` says from `dir` is what `x` says without. -/
def Resolved (dir x y : String) : Prop :=
  match stripPrefix x overlayLowerdirPrefix with
  | none => y = x
  | some v => ∃ v', stripPrefix y overlayLowerdirPrefix = some v' ∧
      (splitColon v').map (dir ++ ·) = splitColon v ∧
      ∀ q ∈ (splitColon v).zip (splitColon v'), q.1 ≠ "" → q.2 ≠ ""

/-- The options that compaction returns mean what they meant before. -/
def MeaningKept (options : List String) : Option String × List String → Prop
  | (none, options') => options' = options
  | (some dir, options') =>
    dir.toList.getLast? = some '/' ∧ List.Forall₂ (Resolved dir) options options'

/-- The values of the `lowerdir=` options. -/
def lowerdirValues (options : List String) : List String :=
  options.filterMap (stripPrefix · overlayLowerdirPrefix)

/-- One of the directories is a path that all have in common. -/
def ParentListed (dirs : List String) : Prop :=
  ∃ d ∈ dirs, d.toList.getLast? = some '/' ∧ ∀ e ∈ dirs, d.toList <+: e.toList

instance (dirs : List String) : Decidable (ParentListed dirs) :=
  inferInstanceAs (Decidable (∃ d ∈ dirs, _ ∧ ∀ e ∈ dirs, _))

variable {options : List String} {dir v : String}

theorem not_colon_of_mem_components (h : t ∈ components options) : ':' ∉ t.toList := by
  obtain ⟨v, -, hv⟩ := List.mem_flatMap.mp h
  exact not_colon_of_mem_splitColon hv

theorem eq_append_behind (h : dir.toList <+: s.toList) :
    s = dir ++ (stripPrefix s dir).getD s := by
  obtain ⟨r, hr⟩ := h
  have hs : s = dir ++ String.ofList r := by
    apply String.ext
    rw [String.toList_append, String.toList_ofList, hr]
  have hstrip : stripPrefix s dir = some (String.ofList r) := stripPrefix_eq_some.mpr hs
  rw [hstrip]
  exact hs

theorem append_behind (hdir : ∀ d ∈ components options, dir.toList <+: d.toList) :
    (behind options dir).map (dir ++ ·) = components options := by
  rw [behind, List.map_map]
  calc (components options).map _
      = (components options).map id :=
        List.map_congr_left fun d hd => (eq_append_behind (hdir d hd)).symm
    _ = components options := List.map_id _

theorem not_colon_of_mem_behind (hdir : ∀ d ∈ components options, dir.toList <+: d.toList)
    (h : t ∈ behind options dir) : ':' ∉ t.toList := by
  obtain ⟨d, hd, rfl⟩ := List.mem_map.mp h
  have hcolon := not_colon_of_mem_components hd
  rw [eq_append_behind (hdir d hd), String.toList_append] at hcolon
  exact fun hmem => hcolon (List.mem_append_right _ hmem)

/-- A part is empty where the component is the directory. -/
theorem behind_eq_empty (h : dir.toList <+: s.toList) : (stripPrefix s dir).getD s = "" ↔ s = dir := by
  have hs := eq_append_behind h
  constructor
  · intro hempty
    rwa [hempty, String.append_empty] at hs
  · intro heq
    subst heq
    have hstrip : stripPrefix s s = some "" := stripPrefix_eq_some.mpr String.append_empty.symm
    rw [hstrip]
    rfl

/-- One option says what it said before if it is the only one with directories and none of
them is the directory itself. -/
theorem resolved_replaceLowerdirs (hdir : ∀ d ∈ components options, dir.toList <+: d.toList)
    (hne : dir ≠ "") (hcomponents : components options ≠ []) :
    Resolved dir (overlayLowerdirPrefix ++ v)
        (replaceLowerdirs options dir (overlayLowerdirPrefix ++ v)) ↔
      splitColon v = components options ∧ dir ∉ components options := by
  have hbehind : behind options dir ≠ [] := List.map_eq_nil_iff.not.mpr hcomponents
  have hsplit : splitColon (String.intercalate ":" (behind options dir)) = behind options dir :=
    splitColon_intercalate hbehind fun d hd => not_colon_of_mem_behind hdir hd
  have hzip : (components options).zip (behind options dir) =
      (components options).map fun d => (d, (stripPrefix d dir).getD d) := by
    exact List.map_prod_left_eq_zip.symm
  rw [replaceLowerdirs, stripPrefix_append, Option.isSome_some, if_pos rfl, Resolved,
    stripPrefix_append]
  simp only [stripPrefix_append, Option.some.injEq, exists_eq_left', hsplit, append_behind hdir]
  constructor
  · intro h
    obtain ⟨hsame, hkept⟩ := h
    refine ⟨hsame.symm, fun hmem => ?_⟩
    rw [← hsame, hzip, List.forall_mem_map] at hkept
    exact hkept dir hmem hne ((behind_eq_empty List.prefix_rfl).mpr rfl)
  · intro h
    obtain ⟨hsame, hmem⟩ := h
    refine ⟨hsame.symm, ?_⟩
    rw [hsame, hzip, List.forall_mem_map]
    intro d hd _ hempty
    rw [behind_eq_empty (hdir d hd)] at hempty
    exact hmem (hempty ▸ hd)

theorem splitColon_eq_components (hv : v ∈ lowerdirValues options)
    (h : splitColon v = components options) : lowerdirValues options = [v] := by
  have hcomponents : components options = (lowerdirValues options).flatMap splitColon := rfl
  obtain ⟨l, r, hvalues⟩ := List.append_of_mem hv
  rw [hcomponents, hvalues, List.flatMap_append, List.flatMap_cons] at h
  have hlength := congrArg List.length h
  simp only [List.length_append] at hlength
  have hnil : ∀ vs : List String, (vs.flatMap splitColon).length = 0 → vs = [] := by
    intro vs hzero
    rw [List.length_eq_zero_iff, List.flatMap_eq_nil_iff] at hzero
    apply List.eq_nil_iff_forall_not_mem.mpr
    exact fun w hw => splitColon_ne_nil w (hzero w hw)
  rw [hvalues, hnil l (by omega), hnil r (by omega)]
  rfl

/-- All options say what they said before. -/
theorem forall_resolved (hdir : ∀ d ∈ components options, dir.toList <+: d.toList) (hne : dir ≠ "")
    (hcomponents : components options ≠ []) :
    List.Forall₂ (Resolved dir) options (options.map (replaceLowerdirs options dir)) ↔
      (lowerdirValues options).length = 1 ∧ dir ∉ components options := by
  rw [List.forall₂_map_right_iff, List.forall₂_same]
  have hvalue : ∀ {w}, w ∈ lowerdirValues options ↔ overlayLowerdirPrefix ++ w ∈ options := by
    intro w
    rw [lowerdirValues, List.mem_filterMap]
    constructor
    · intro hexists
      obtain ⟨x, hx, hw⟩ := hexists
      rw [stripPrefix_eq_some] at hw
      exact hw ▸ hx
    · exact fun hmem => ⟨_, hmem, stripPrefix_append _ w⟩
  constructor
  · intro h
    obtain ⟨d, hd⟩ := List.exists_mem_of_ne_nil _ hcomponents
    obtain ⟨w, hw, -⟩ := List.mem_flatMap.mp hd
    obtain ⟨hsame, hmem⟩ :=
      (resolved_replaceLowerdirs hdir hne hcomponents).mp (h _ (hvalue.mp hw))
    exact ⟨by rw [splitColon_eq_components hw hsame]; rfl, hmem⟩
  · intro h x hx
    obtain ⟨hone, hmem⟩ := h
    cases hstrip : stripPrefix x overlayLowerdirPrefix with
    | none =>
      rw [replaceLowerdirs, hstrip, Resolved, hstrip]
      rfl
    | some w =>
      rw [stripPrefix_eq_some] at hstrip
      subst hstrip
      apply (resolved_replaceLowerdirs hdir hne hcomponents).mpr
      obtain ⟨w', hvalues⟩ := List.length_eq_one_iff.mp hone
      have hw : w = w' := List.mem_singleton.mp (hvalues ▸ hvalue.mpr hx)
      refine ⟨?_, hmem⟩
      show splitColon w = (lowerdirValues options).flatMap splitColon
      rw [hvalues, hw, List.flatMap_singleton]

/-- A directory that all begin with and that ends with a slash is the one that is cut off. -/
theorem parentListed_iff {u : List Char}
    (hcommon : ∀ d ∈ components options, u ++ ['/'] <+: d.toList)
    (hlast : ∀ q, (∀ d ∈ components options, q ++ ['/'] <+: d.toList) →
      q ++ ['/'] <+: u ++ ['/']) :
    ParentListed (components options) ↔ String.ofList (u ++ ['/']) ∈ components options := by
  constructor
  · intro hexists
    obtain ⟨d, hd, hend, hbegins⟩ := hexists
    obtain ⟨q, hq⟩ := List.getLast?_eq_some_iff.mp hend
    have hle : q ++ ['/'] <+: u ++ ['/'] := hlast q (hq ▸ hbegins)
    have hge : u ++ ['/'] <+: q ++ ['/'] := hq ▸ hcommon d hd
    rw [hge.eq_of_length (Nat.le_antisymm hge.length_le hle.length_le), ← hq,
      String.ofList_toList]
    exact hd
  · intro hmem
    refine ⟨_, hmem, ?_, ?_⟩
    · rw [String.toList_ofList, List.getLast?_append]
      rfl
    · rwa [String.toList_ofList]

/-- The compactor keeps what the options mean exactly where it leaves them as they are, or where
one option has all directories, they have a path in common, and none of them is that path. -/
theorem compact_keeps_meaning_iff {r : Option String × List String}
    (h : (LowerdirCompactor.mk options none none).compact = some r) :
    MeaningKept options r ↔
      (components options).length ≤ 1 ∨
        ShareParent (components options) ∧ ¬SharePath (components options) ∨
        (lowerdirValues options).length = 1 ∧ SharePath (components options) ∧
          ¬ParentListed (components options) := by
  have hcompaction := compaction options
  rw [h] at hcompaction
  have hcomponents : 1 < (components options).length → components options ≠ [] := by
    intro hlen hnil
    rw [hnil] at hlen
    cases hlen
  cases hcompaction with
  | single hlen => exact ⟨fun _ => Or.inl hlen, fun _ => rfl⟩
  | root _ hparent hroot => exact ⟨fun _ => Or.inr (Or.inl ⟨hparent, hroot⟩), fun _ => rfl⟩
  | parent hlen u hu hcommon hlast =>
    have hshort : ¬(components options).length ≤ 1 := by omega
    have hpath : SharePath (components options) := ⟨u, hu, hcommon⟩
    have hend : (String.ofList (u ++ ['/'])).toList.getLast? = some '/' := by
      rw [String.toList_ofList, List.getLast?_append]
      rfl
    have hempty : String.ofList (u ++ ['/']) ≠ "" := by
      rw [Ne, ofList_eq_iff]
      exact List.append_ne_nil_of_right_ne_nil u (List.cons_ne_nil _ _)
    have hbegins : ∀ d ∈ components options, (String.ofList (u ++ ['/'])).toList <+: d.toList := by
      rwa [String.toList_ofList]
    rw [MeaningKept, forall_resolved hbegins hempty (hcomponents hlen),
      ← parentListed_iff hcommon hlast]
    simp only [hend, hshort, hpath, not_true_eq_false, and_false, false_or, true_and]
  | ascii hlen hparent c hsize hcommon =>
    have hshort : ¬(components options).length ≤ 1 := by omega
    have hpath : ¬SharePath (components options) := fun ⟨q, _, hq⟩ => hparent ⟨q, hq⟩
    have hc : c ≠ '/' := by
      intro heq
      subst heq
      exact hparent ⟨[], hcommon⟩
    rw [MeaningKept, String.toList_ofList]
    simp only [hshort, hparent, hpath, false_and, and_false, or_self, iff_false]
    intro hkept
    exact hc (Option.some.inj hkept.1)

theorem snapshots_keep_meaning :
    (LowerdirCompactor.mk ["workdir=/w", "lowerdir=/s/1/fs:/s/2/fs"] none none).compact =
        some (some "/s/", ["workdir=/w", "lowerdir=1/fs:2/fs"]) ∧
      MeaningKept ["workdir=/w", "lowerdir=/s/1/fs:/s/2/fs"]
        (some "/s/", ["workdir=/w", "lowerdir=1/fs:2/fs"]) := by
  have hcompact :
      (LowerdirCompactor.mk ["workdir=/w", "lowerdir=/s/1/fs:/s/2/fs"] none none).compact =
      some (some "/s/", ["workdir=/w", "lowerdir=1/fs:2/fs"]) := by decide +kernel
  have hpath : SharePath (components ["workdir=/w", "lowerdir=/s/1/fs:/s/2/fs"]) :=
    ⟨['/', 's'], by decide, by decide +kernel⟩
  exact ⟨hcompact, (compact_keeps_meaning_iff hcompact).mpr
    (Or.inr (Or.inr ⟨by decide +kernel, hpath, by decide +kernel⟩))⟩

theorem listed_parent_becomes_empty :
    ¬∀ (options : List String) (r : Option String × List String),
      (LowerdirCompactor.mk options none none).compact = some r → MeaningKept options r := by
  intro h
  have hkept := h ["lowerdir=/a/:/a/b"] (some "/a/", ["lowerdir=:b"]) (by decide +kernel)
  obtain ⟨v', hv, -, hempty⟩ := (List.forall₂_cons.mp hkept.2).1
  obtain rfl := Option.some.inj hv
  exact absurd hempty (by decide +kernel)

end RustExtensions.Shim
