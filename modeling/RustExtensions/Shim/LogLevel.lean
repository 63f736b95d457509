import RustExtensions.Shim.StartProtocol

/-!
# The log level of a start request

The wire value of a log level is any `i32`. It is rounded to the nearest known
level, and the `-debug` flag is applied to the value before that. A level is the
more verbose the smaller its value is.
-/
namespace RustExtensions.Shim

/-! ## Keeping the best -/

section Best
variable {α : Type} {R : α → α → Prop} [DecidableRel R] [IsTrans α R] [Std.Irrefl R]

/-- A fold that replaces what it has by what is better ends with something unbeaten. -/
theorem foldl_unbeaten (xs : List α) (best : α) :
    ∀ l ∈ best :: xs, ¬R l (xs.foldl (fun best l => if R l best then l else best) best) := by
  suffices h : ∀ (seen : List α), (∀ l ∈ seen, ¬R l best) →
      ∀ l ∈ seen ++ xs, ¬R l (xs.foldl (fun best l => if R l best then l else best) best) by
    have hbest : ∀ l ∈ [best], ¬R l best := by
      intro l hl
      obtain rfl := List.mem_singleton.mp hl
      exact irrefl l
    exact h [best] hbest
  induction xs generalizing best with
  | nil =>
    intro seen hseen l hl
    exact hseen l (List.append_nil seen ▸ hl)
  | cons x xs ih =>
    intro seen hseen l hl
    rw [List.foldl_cons]
    refine ih _ (seen ++ [x]) (fun m hm => ?_) l (List.append_assoc .. ▸ hl)
    rcases List.mem_append.mp hm with hm | hm
    · split
      · next hx => exact fun hmx => hseen m hm (IsTrans.trans m x best hmx hx)
      · exact hseen m hm
    · obtain rfl := List.mem_singleton.mp hm
      split
      · exact irrefl m
      · next hx => exact hx

end Best

/-! ## The distance of two values -/

/-- `i32::abs_diff`. -/
def absDiff (a b : Int32) : UInt32 :=
  if a < b then b.toUInt32 - a.toUInt32 else a.toUInt32 - b.toUInt32

/-- The distance of two `i32` fits in a `u32`, so nothing overflows. -/
theorem toNat_absDiff (a b : Int32) : (absDiff a b).toNat = (a.toInt - b.toInt).natAbs := by
  have ha : a.toInt = _ := BitVec.toInt_eq_toNat_cond a.toBitVec
  have hb : b.toInt = _ := BitVec.toInt_eq_toNat_cond b.toBitVec
  have hau : a.toUInt32.toNat = a.toBitVec.toNat := rfl
  have hbu : b.toUInt32.toNat = b.toBitVec.toNat := rfl
  have hale := a.toBitVec.isLt
  have hble := b.toBitVec.isLt
  unfold absDiff
  split
  · next h =>
    have hlt := Int32.lt_iff_toInt_lt.mp h
    rw [UInt32.toNat_sub, hau, hbu]
    split at ha <;> split at hb <;> omega
  · next h =>
    have hle := mt Int32.lt_iff_toInt_lt.mpr h
    rw [UInt32.toNat_sub, hau, hbu]
    split at ha <;> split at hb <;> omega

namespace LogLevel

/-- How far a known level is from a value. -/
def distance (l : LogLevel) (value : Int32) : Nat := (absDiff l.value value).toNat

variable {v w value : Int32} {l best : LogLevel}

theorem value_injective (h : l.value = best.value) : l = best := by
  cases l <;> cases best <;> first | rfl | cases h

/-- The keys of `min_by_key`, compared. -/
theorem nearer_iff : Nearer value l best ↔ distance l value < distance best value ∨
    distance l value = distance best value ∧ best.value.toInt < l.value.toInt := by
  rw [distance, distance, toNat_absDiff, toNat_absDiff, ← Int32.lt_iff_toInt_lt]
  rfl

instance (value : Int32) : IsTrans LogLevel (Nearer value) where
  trans a b c hab hbc := by
    rw [nearer_iff] at hab hbc ⊢
    omega

instance (value : Int32) : Std.Irrefl (Nearer value) where
  irrefl l h := by
    rw [nearer_iff] at h
    omega

end LogLevel

/-! ## The nearest level -/

section Nearest
variable {v w : Int32}

theorem LogLevel.mem_values (l : LogLevel) : l ∈ LogLevel.values := by
  cases l <;> decide

/-- No level is nearer, and none that is as near is less verbose. -/
theorem nearestLogLevel_minimal (v : Int32) (l : LogLevel) :
    (nearestLogLevel v).distance v ≤ l.distance v ∧
      (l.distance v = (nearestLogLevel v).distance v →
        l.value.toInt ≤ (nearestLogLevel v).value.toInt) := by
  have hunbeaten : ¬LogLevel.Nearer v l (nearestLogLevel v) :=
    foldl_unbeaten LogLevel.values .info l (List.mem_cons_of_mem _ l.mem_values)
  rw [LogLevel.nearer_iff] at hunbeaten
  omega

/-- Rounding keeps the order: what is nearest to the smaller value is not the greater level. -/
theorem nearestLogLevel_mono (h : v ≤ w) :
    (nearestLogLevel v).value ≤ (nearestLogLevel w).value := by
  have hle := Int32.le_iff_toInt_le.mp h
  obtain ⟨hv, -⟩ := nearestLogLevel_minimal v (nearestLogLevel w)
  obtain ⟨hw, htie⟩ := nearestLogLevel_minimal w (nearestLogLevel v)
  simp only [LogLevel.distance, toNat_absDiff] at hv hw htie
  rw [Int32.le_iff_toInt_le]
  omega

theorem nearestLogLevel_value (l : LogLevel) : nearestLogLevel l.value = l := by
  obtain ⟨hmin, -⟩ := nearestLogLevel_minimal l.value l
  simp only [LogLevel.distance, toNat_absDiff] at hmin
  apply LogLevel.value_injective
  apply Int32.toInt_inj.mp
  omega

end Nearest

/-! ## The debug flag -/

section Debug
variable {input : List UInt8} {flags : Flags} {env : LegacyEnv} {p : BootstrapParams}
  {protocol : Protocol}

theorem logLevel_withDebug : (p.withDebug true).logLevel ≤ LogLevel.debug.value ∧
    (p.withDebug true).logLevel ≤ p.logLevel := by
  unfold BootstrapParams.withDebug
  split
  · next h =>
    have hgt : p.logLevel > LogLevel.debug.value := by simpa using h
    exact ⟨Int32.le_refl _, Int32.le_of_lt hgt⟩
  · next h =>
    have hle : p.logLevel ≤ LogLevel.debug.value := by simpa using h
    exact ⟨hle, Int32.le_refl _⟩

/-- The parameters that the flag is applied to, which are those that come out without it. -/
theorem parseStartParams_debug (hflag : flags.debug = true)
    (h : parseStartParams input flags env = .ok (p, protocol)) :
    ∃ q, parseStartParams input { flags with debug := false } env = .ok (q, protocol) ∧
      p = q.withDebug true := by
  have hkept := fun q : BootstrapParams => (q.withDebug_of_identity true).2.2.2
  cases hparse : parseBootstrapParams input flags.id flags.ns with
  | error e => simp [parseStartParams, hparse, bind, Except.bind] at h
  | ok found =>
    cases found with
    | some q =>
      by_cases haddress : q.containerdTtrpcAddress = ""
      · simp [parseStartParams, hparse, hflag, hkept, haddress, bind, Except.bind] at h
      · rw [parseStartParams_of_some hparse haddress, hflag] at h
        obtain ⟨rfl, rfl⟩ := Prod.mk.inj (Except.ok.inj h)
        exact ⟨q, parseStartParams_of_some hparse haddress, rfl⟩
    | none =>
      by_cases haddress : env.ttrpcAddress = ""
      · simp [parseStartParams, hparse, hflag, hkept, legacyParams, haddress, bind, Except.bind] at h
      · rw [parseStartParams_of_none hparse haddress, hflag] at h
        obtain ⟨rfl, rfl⟩ := Prod.mk.inj (Except.ok.inj h)
        exact ⟨legacyParams input flags env, parseStartParams_of_none hparse haddress, rfl⟩

theorem ofParams_logLevel (q : BootstrapParams) :
    (StartOpts.ofParams q).logLevel = nearestLogLevel q.logLevel := by
  simp only [StartOpts.ofParams]

theorem ofParams_debug (q : BootstrapParams) : (StartOpts.ofParams q).debug = true ↔
    (nearestLogLevel q.logLevel).value ≤ LogLevel.debug.value := by
  simp only [StartOpts.ofParams, decide_eq_true_eq]

/-- With the flag on the value the level is debug or more verbose, and no less than without. -/
theorem startOpts_withDebug (q : BootstrapParams) :
    (StartOpts.ofParams (q.withDebug true)).debug = true ∧
      (StartOpts.ofParams (q.withDebug true)).logLevel.value ≤
        (StartOpts.ofParams q).logLevel.value := by
  obtain ⟨hdebug, hraised⟩ := logLevel_withDebug (p := q)
  have hround := nearestLogLevel_mono hdebug
  rw [nearestLogLevel_value] at hround
  rw [ofParams_debug, ofParams_logLevel, ofParams_logLevel]
  exact ⟨hround, nearestLogLevel_mono hraised⟩

/-- Rounding a level and the debug flag, for every value on the wire and every start request. -/
theorem log_level_resolved :
    (∀ (v : Int32) (l : LogLevel),
      (absDiff l.value v).toNat = (l.value.toInt - v.toInt).natAbs ∧
      (nearestLogLevel v).distance v ≤ l.distance v ∧
      (l.distance v = (nearestLogLevel v).distance v →
        l.value.toInt ≤ (nearestLogLevel v).value.toInt)) ∧
    (∀ v w : Int32, v ≤ w → (nearestLogLevel v).value ≤ (nearestLogLevel w).value) ∧
    (∀ l : LogLevel, nearestLogLevel l.value = l) ∧
    ∀ (input : List UInt8) (flags : Flags) (env : LegacyEnv) (p : BootstrapParams)
      (protocol : Protocol), flags.debug = true →
      parseStartParams input flags env = .ok (p, protocol) →
      (StartOpts.ofParams p).debug = true ∧
        ∃ q, parseStartParams input { flags with debug := false } env = .ok (q, protocol) ∧
          (StartOpts.ofParams p).logLevel.value ≤ (StartOpts.ofParams q).logLevel.value := by
  refine ⟨fun v l => ?_, fun v w h => nearestLogLevel_mono h, nearestLogLevel_value, ?_⟩
  · obtain ⟨hmin, htie⟩ := nearestLogLevel_minimal v l
    exact ⟨toNat_absDiff l.value v, hmin, htie⟩
  · intro input flags env p protocol hflag h
    obtain ⟨q, hq, rfl⟩ := parseStartParams_debug hflag h
    obtain ⟨hdebug, hverbose⟩ := startOpts_withDebug q
    exact ⟨hdebug, q, hq, hverbose⟩

/-- A start request at level error. -/
def errorRequest : List UInt8 := [0x0a, 1, 105, 0x12, 1, 110, 0x18, 8, 0x2a, 2, 47, 116]

/-- The flag raises what is on the wire. -/
theorem log_level_resolved_raised :
    ((-8 : Int32) ≤ -6 ∧
      (nearestLogLevel (-8)).value ≤ (nearestLogLevel (-6)).value) ∧
    ∃ p, parseStartParams errorRequest { debug := true, ns := "n", id := "i" } {} =
        .ok (p, .bootstrap) ∧
      (StartOpts.ofParams p).debug = true ∧
      ∃ q, parseStartParams errorRequest { ns := "n", id := "i" } {} = .ok (q, .bootstrap) ∧
        (StartOpts.ofParams p).logLevel.value ≤ (StartOpts.ofParams q).logLevel.value := by
  obtain ⟨-, hmono, -, hdebug⟩ := log_level_resolved
  refine ⟨⟨by decide, hmono (-8) (-6) (by decide)⟩, ?_⟩
  have hparse : parseStartParams errorRequest { debug := true, ns := "n", id := "i" } {} =
      .ok ({ instanceId := "i", ns := "n", logLevel := -4, containerdTtrpcAddress := "/t" },
        .bootstrap) := by
    decide +kernel
  exact ⟨_, hparse, hdebug errorRequest { debug := true, ns := "n", id := "i" } {} _ _ rfl hparse⟩

end Debug
end RustExtensions.Shim
