import RustExtensions.Shim.Bootstrap

/-!
# Which protocol containerd used

The two kinds of message read from the same bytes, and what `parse_start_params`
makes of them. An `Any` with nothing but its own fields reads as bootstrap
parameters with nothing but an identity, if it reads as such at all.
-/
namespace RustExtensions.Shim

open Wire (Field)

/-! ## Messages are read as they were written -/

section RoundTrip
variable {n : Nat} {s : String} {M : Type} {merge : M → Field → Option M}

def AnyMessage.keep (a : AnyMessage) (fs : List Field) : AnyMessage :=
  { a with unknownFields := a.unknownFields ++ fs }

def Extension.keep (e : Extension) (fs : List Field) : Extension :=
  { e with unknownFields := e.unknownFields ++ fs }

def BootstrapParams.keep (p : BootstrapParams) (fs : List Field) : BootstrapParams :=
  { p with unknownFields := p.unknownFields ++ fs }

/-- The message type has a place for nothing of `unknownFields`. -/
structure AnyMessage.WellFormed (a : AnyMessage) : Prop where
  fits : ∀ f ∈ a.toFields, f.Fits
  unknown : ∀ f ∈ a.unknownFields, ∀ a, AnyMessage.merge a f = some (a.keep [f])

structure Extension.WellFormed (e : Extension) : Prop where
  fits : ∀ f ∈ e.toFields, f.Fits
  unknown : ∀ f ∈ e.unknownFields, ∀ e, Extension.merge e f = some (e.keep [f])
  value : ∀ a, e.value = some a → a.WellFormed

structure BootstrapParams.WellFormed (p : BootstrapParams) : Prop where
  fits : ∀ f ∈ p.toFields, f.Fits
  unknown : ∀ f ∈ p.unknownFields, ∀ p, BootstrapParams.merge p f = some (p.keep [f])
  extensions : ∀ e ∈ p.extensions, e.WellFormed

theorem foldlM_stringField {m m' : M} (hempty : s = "" → m = m')
    (hset : merge m (bytesField n (Utf8.encode s)) = some m') :
    (stringField n s).foldlM merge m = some m' := by
  unfold stringField
  split
  · next h =>
    rw [hempty h]
    rfl
  · simp [hset]

theorem AnyMessage.parse_write {a : AnyMessage} (h : a.WellFormed) :
    AnyMessage.parseFromBytes a.writeToBytes = some a := by
  obtain ⟨⟨typeUrl, value⟩, unknownFields⟩ := a
  have hurl : (stringField 1 typeUrl).foldlM merge {} = some ({ typeUrl } : AnyMessage) := by
    apply foldlM_stringField
    · intro heq
      subst heq
      rfl
    · simp [merge, bytesField]
  have hvalue : (if value = [] then [] else [bytesField 2 value]).foldlM merge { typeUrl } =
      some ({ typeUrl, value } : AnyMessage) := by
    split
    · next he =>
      rw [he]
      rfl
    · simp [merge, bytesField]
  have hunknown := Wire.foldlM_collect keep (by simp [keep]) (by simp [keep])
    h.unknown { typeUrl, value }
  rw [parseFromBytes, writeToBytes, Wire.decodeFrom_write h.fits, toFields, List.append_assoc,
    Wire.foldlM_append hurl, Wire.foldlM_append hvalue, hunknown]
  rfl

theorem Extension.parse_write {e : Extension} (h : e.WellFormed) :
    Wire.decodeFrom Extension.merge {} e.writeToBytes = some e := by
  obtain ⟨value, unknownFields⟩ := e
  have hvalue : (value.map fun a => bytesField 1 a.writeToBytes).toList.foldlM Extension.merge {} =
      some ({ value } : Extension) := by
    cases value with
    | none => rfl
    | some a =>
      have ha := AnyMessage.parse_write (h.value a rfl)
      unfold AnyMessage.parseFromBytes at ha
      simp [Extension.merge, bytesField, ha]
  have hunknown := Wire.foldlM_collect keep (by simp [keep]) (by simp [keep])
    h.unknown { value }
  rw [writeToBytes, Wire.decodeFrom_write h.fits, toFields, Wire.foldlM_append hvalue, hunknown]
  rfl

theorem toInt32_toUInt64 (l : Int32) : l.toInt64.toUInt64.toUInt32.toInt32 = l := by
  apply Int32.toBitVec_inj.mp
  have hbits : (l.toBitVec.signExtend 64).setWidth 32 = l.toBitVec := by
    ext i hi
    have hlt : i < 64 := by omega
    rw [BitVec.getElem_setWidth, BitVec.getLsbD_signExtend]
    simp [hi, hlt]
  exact hbits

theorem foldlM_extensions {es : List Extension} (h : ∀ e ∈ es, e.WellFormed)
    (p : BootstrapParams) :
    (es.map fun e => bytesField 8 e.writeToBytes).foldlM BootstrapParams.merge p =
      some { p with extensions := p.extensions ++ es } := by
  induction es generalizing p with
  | nil => simp
  | cons e es ih =>
    have he := Extension.parse_write (h e (List.mem_cons_self ..))
    have hrest := ih (fun e he => h e (List.mem_cons_of_mem _ he))
      { p with extensions := p.extensions ++ [e] }
    rw [List.append_assoc] at hrest
    simpa [BootstrapParams.merge, bytesField, he] using hrest

theorem BootstrapParams.parse_write {p : BootstrapParams} (h : p.WellFormed) :
    BootstrapParams.parseFromBytes p.writeToBytes = some p := by
  obtain ⟨instanceId, ns, logLevel, version, ttrpc, grpc, binary, extensions, socketDir,
    unknownFields⟩ := p
  have hstring : ∀ {n : Nat} {s : String} {p p' : BootstrapParams}, (s = "" → p = p') →
      merge p (bytesField n (Utf8.encode s)) = some p' →
      (stringField n s).foldlM merge p = some p' := foldlM_stringField
  let p₁ : BootstrapParams := { instanceId }
  let p₂ : BootstrapParams := { p₁ with ns }
  let p₃ : BootstrapParams := { p₂ with logLevel }
  let p₄ : BootstrapParams := { p₃ with containerdVersion := version }
  let p₅ : BootstrapParams := { p₄ with containerdTtrpcAddress := ttrpc }
  let p₆ : BootstrapParams := { p₅ with containerdGrpcAddress := grpc }
  let p₇ : BootstrapParams := { p₆ with containerdBinary := binary }
  let p₈ : BootstrapParams := { p₇ with extensions }
  let p₉ : BootstrapParams := { p₈ with socketDir }
  have h₁ : (stringField 1 instanceId).foldlM merge {} = some p₁ :=
    hstring (by rintro rfl; rfl) (by simp [merge, bytesField, p₁])
  have h₂ : (stringField 2 ns).foldlM merge p₁ = some p₂ :=
    hstring (by rintro rfl; rfl) (by simp [merge, bytesField, p₂])
  have h₃ : (if logLevel = 0 then []
      else [{ number := 3, value := .varint logLevel.toInt64.toUInt64 }]).foldlM merge p₂ =
        some p₃ := by
    split
    · next he =>
      subst he
      rfl
    · simp [merge, toInt32_toUInt64, p₃]
  have h₄ : (stringField 4 version).foldlM merge p₃ = some p₄ :=
    hstring (by rintro rfl; rfl) (by simp [merge, bytesField, p₄])
  have h₅ : (stringField 5 ttrpc).foldlM merge p₄ = some p₅ :=
    hstring (by rintro rfl; rfl) (by simp [merge, bytesField, p₅])
  have h₆ : (stringField 6 grpc).foldlM merge p₅ = some p₆ :=
    hstring (by rintro rfl; rfl) (by simp [merge, bytesField, p₆])
  have h₇ : (stringField 7 binary).foldlM merge p₆ = some p₇ :=
    hstring (by rintro rfl; rfl) (by simp [merge, bytesField, p₇])
  have h₈ : (extensions.map fun e => bytesField 8 e.writeToBytes).foldlM merge p₇ = some p₈ :=
    foldlM_extensions h.extensions p₇
  have h₉ : (socketDir.map fun s => bytesField 9 (Utf8.encode s)).toList.foldlM merge p₈ =
      some p₉ := by
    cases socketDir with
    | none => rfl
    | some s => simp [merge, bytesField, p₉]
  have hunknown := Wire.foldlM_collect keep (by simp [keep]) (by simp [keep])
    h.unknown p₉
  rw [parseFromBytes, writeToBytes, Wire.decodeFrom_write h.fits, toFields]
  simp only [List.append_assoc]
  rw [Wire.foldlM_append h₁, Wire.foldlM_append h₂, Wire.foldlM_append h₃, Wire.foldlM_append h₄,
    Wire.foldlM_append h₅, Wire.foldlM_append h₆, Wire.foldlM_append h₇, Wire.foldlM_append h₈,
    Wire.foldlM_append h₉, hunknown]
  rfl

end RoundTrip

/-! ## Telling the protocols apart -/

section StartParams
variable {input : List UInt8} {flags : Flags} {env : LegacyEnv} {p : BootstrapParams}
  {a : AnyMessage}

namespace BootstrapParams

/-- Some field is set besides the identity. -/
def Further (p : BootstrapParams) : Prop :=
  p.logLevel ≠ 0 ∨ p.containerdVersion ≠ "" ∨ p.containerdTtrpcAddress ≠ "" ∨
    p.containerdGrpcAddress ≠ "" ∨ p.containerdBinary ≠ "" ∨ p.extensions ≠ [] ∨
    p.socketDir ≠ none ∨ p.unknownFields ≠ []

theorem further_iff : p.Further ↔ p ≠ p.identityOnly := by
  obtain ⟨instanceId, ns, logLevel, version, ttrpc, grpc, binary, extensions, socketDir,
    unknownFields⟩ := p
  simp only [Further, identityOnly, ne_eq, BootstrapParams.mk.injEq, true_and]
  tauto

theorem withDebug_of_identity (p : BootstrapParams) (debug : Bool) :
    (p.withDebug debug).instanceId = p.instanceId ∧ (p.withDebug debug).ns = p.ns ∧
      (p.withDebug debug).extensions = p.extensions ∧
      (p.withDebug debug).containerdTtrpcAddress = p.containerdTtrpcAddress := by
  unfold withDebug
  split <;> exact ⟨rfl, rfl, rfl, rfl⟩

/-- A field that is not part of the identity leaves the identity alone. -/
theorem merge_identity {f : Field} {p' : BootstrapParams} (h : p.merge f = some p')
    (hid : ∀ bs, f.number = 1 → f.value ≠ .lengthDelimited bs)
    (hns : ∀ bs, f.number = 2 → f.value ≠ .lengthDelimited bs) :
    p'.instanceId = p.instanceId ∧ p'.ns = p.ns := by
  unfold merge at h
  split at h
  · next bs hnumber hvalue => exact absurd hvalue (hid bs hnumber)
  · next bs hnumber hvalue => exact absurd hvalue (hns bs hnumber)
  all_goals
    simp only [Option.map_eq_some_iff, Option.some.injEq] at h
    grind

/-- An `Any` read so far, and bootstrap parameters read from the same fields. -/
structure ReadAs (a : AnyMessage) (p : BootstrapParams) : Prop where
  typeUrl : p.instanceId = a.typeUrl
  value : a.value = Utf8.encode p.ns
  further : a.unknownFields = [] → ¬p.Further

theorem readAs_merge {f : Field} {a' : AnyMessage} {p' : BootstrapParams} (h : ReadAs a p)
    (ha : a.merge f = some a') (hp : p.merge f = some p') : ReadAs a' p' := by
  obtain ⟨number, value⟩ := f
  unfold AnyMessage.merge at ha
  split at ha
  · next bs hnumber hvalue =>
    dsimp only at hnumber hvalue
    subst hnumber hvalue
    obtain ⟨s, hs, rfl⟩ := Option.map_eq_some_iff.mp ha
    simp only [merge, hs, Option.map_some, Option.some.injEq] at hp
    rw [← hp]
    exact ⟨rfl, h.value, h.further⟩
  · next bs hnumber hvalue =>
    dsimp only at hnumber hvalue
    subst hnumber hvalue
    obtain rfl := Option.some.inj ha
    obtain ⟨s, hs, rfl⟩ := Option.map_eq_some_iff.mp hp
    exact ⟨h.typeUrl, Utf8.decode_eq_some.mp hs, h.further⟩
  · next hid hns =>
    obtain rfl := Option.some.inj ha
    obtain ⟨hinstance, hnamespace⟩ := merge_identity hp (fun bs h hv => hid bs h hv)
      (fun bs h hv => hns bs h hv)
    refine ⟨hinstance.trans h.typeUrl, h.value.trans (congrArg Utf8.encode hnamespace.symm), ?_⟩
    intro hunknown
    simp at hunknown

theorem readAs_parse (ha : AnyMessage.parseFromBytes input = some a)
    (hp : parseFromBytes input = some p) : ReadAs a p := by
  refine Wire.decodeFrom_related readAs_merge ?_ ha hp
  refine ⟨rfl, rfl, ?_⟩
  intro _
  simp [Further]

end BootstrapParams

theorem parseStartParams_of_some {params : BootstrapParams}
    (h : parseBootstrapParams input flags.id flags.ns = .ok (some params))
    (haddress : params.containerdTtrpcAddress ≠ "") :
    parseStartParams input flags env = .ok (params.withDebug flags.debug, .bootstrap) := by
  have hkept := (params.withDebug_of_identity flags.debug).2.2.2
  rw [← hkept] at haddress
  simp [parseStartParams, h, haddress, bind, Except.bind, pure, Except.pure]

theorem parseStartParams_of_none (h : parseBootstrapParams input flags.id flags.ns = .ok none)
    (haddress : env.ttrpcAddress ≠ "") :
    parseStartParams input flags env =
      .ok ((legacyParams input flags env).withDebug flags.debug, .legacy) := by
  have hkept := ((legacyParams input flags env).withDebug_of_identity flags.debug).2.2.2
  have haddress' : (legacyParams input flags env).containerdTtrpcAddress ≠ "" := haddress
  rw [← hkept] at haddress'
  simp [parseStartParams, h, haddress', bind, Except.bind, pure, Except.pure]

/-- Parameters with the shim's identity are taken, whatever else is in them. -/
theorem parseBootstrapParams_of_identity (hp : BootstrapParams.parseFromBytes input = some p)
    (hid : p.instanceId = flags.id) (hns : p.ns = flags.ns) (hinput : input ≠ []) :
    parseBootstrapParams input flags.id flags.ns = .ok (some p) := by
  simp [parseBootstrapParams, hp, hid, hns, hinput]

theorem parseBootstrapParams_of_any (ha : AnyMessage.parseFromBytes input = some a)
    (hforeign : ¬(a.typeUrl = flags.id ∧ a.value = Utf8.encode flags.ns))
    (hplain : ∀ p, BootstrapParams.parseFromBytes input = some p → ¬p.Further) :
    parseBootstrapParams input flags.id flags.ns = .ok none := by
  unfold parseBootstrapParams
  split
  · rfl
  · split
    · rfl
    · next p hp =>
      have hread := BootstrapParams.readAs_parse ha hp
      have hmismatch : ¬(p.instanceId = flags.id ∧ p.ns = flags.ns) := by
        intro hexists
        obtain ⟨hid, hns⟩ := hexists
        exact hforeign ⟨hread.typeUrl.symm.trans hid, hns ▸ hread.value⟩
      have honly : p = p.identityOnly := by
        by_contra hne
        exact hplain p hp (BootstrapParams.further_iff.mpr hne)
      rw [if_neg (by simpa using hmismatch), if_pos honly]

/-- Parameters for another shim are an error, not legacy options. -/
theorem parseBootstrapParams_of_further (hp : BootstrapParams.parseFromBytes input = some p)
    (hforeign : ¬(p.instanceId = flags.id ∧ p.ns = flags.ns)) (hfurther : p.Further) :
    parseBootstrapParams input flags.id flags.ns =
      .error (.other (s!"bootstrap params for {p.ns}/{p.instanceId} do not match " ++
        s!"command line arguments {flags.ns}/{flags.id}")) := by
  have hne : ¬p = p.identityOnly := BootstrapParams.further_iff.mp hfurther
  have hinput : input ≠ [] := by
    intro heq
    subst heq
    obtain rfl := Option.some.inj hp
    exact hne rfl
  unfold parseBootstrapParams
  rw [if_neg hinput, hp]
  dsimp only
  rw [if_neg (by simpa using hforeign), if_neg hne]

theorem start_protocol_detected (input : List UInt8) (flags : Flags) (env : LegacyEnv) :
    (∀ p, BootstrapParams.parseFromBytes input = some p → p.instanceId = flags.id →
      p.ns = flags.ns → p.containerdTtrpcAddress ≠ "" →
      parseStartParams input flags env = .ok (p.withDebug flags.debug, .bootstrap)) ∧
    (∀ a, AnyMessage.parseFromBytes input = some a → a.typeUrl ≠ "" →
      ¬(a.typeUrl = flags.id ∧ a.value = Utf8.encode flags.ns) → env.ttrpcAddress ≠ "" →
      (a.unknownFields = [] ∨
        ∀ p, BootstrapParams.parseFromBytes input = some p → ¬p.Further) →
      ∃ params, parseStartParams input flags env = .ok (params, .legacy) ∧
        params.instanceId = flags.id ∧ params.ns = flags.ns ∧
        params.extensions = [{ value := some a }]) ∧
    (∀ p, BootstrapParams.parseFromBytes input = some p →
      ¬(p.instanceId = flags.id ∧ p.ns = flags.ns) → p.Further →
      ∃ e, parseStartParams input flags env = .error e) := by
  refine ⟨fun p hp hid hns haddress => ?_, fun a ha hurl hforeign haddress hplain => ?_,
    fun p hp hforeign hfurther => ?_⟩
  · have hinput : input ≠ [] := by
      intro heq
      subst heq
      obtain rfl := Option.some.inj hp
      exact haddress rfl
    exact parseStartParams_of_some (parseBootstrapParams_of_identity hp hid hns hinput) haddress
  · have hnever : ∀ p, BootstrapParams.parseFromBytes input = some p → ¬p.Further := by
      rcases hplain with hunknown | hplain
      · exact fun p hp => (BootstrapParams.readAs_parse ha hp).further hunknown
      · exact hplain
    have hnone := parseBootstrapParams_of_any ha hforeign hnever
    obtain ⟨hid, hns, hextensions, -⟩ :=
      (legacyParams input flags env).withDebug_of_identity flags.debug
    refine ⟨_, parseStartParams_of_none hnone haddress, hid, hns, hextensions.trans ?_⟩
    simp [legacyParams, ha, hurl]
  · exact ⟨_, by rw [parseStartParams, parseBootstrapParams_of_further hp hforeign hfurther]; rfl⟩

/-- Parameters for one shim, and runtime options of which nothing but the type is set. -/
def someParams (id : String) : BootstrapParams where
  instanceId := id
  ns := "k8s.io"
  containerdTtrpcAddress := "/run/containerd/containerd.sock.ttrpc"

def someOptions : AnyMessage := { typeUrl := "containerd.runc.v1.Options" }

theorem start_protocol_detected_messages :
    let flags : Flags := { id := "abc", ns := "k8s.io" }
    let env : LegacyEnv := { ttrpcAddress := "/run/containerd/containerd.sock.ttrpc" }
    parseStartParams (someParams "abc").writeToBytes flags env =
      .ok ((someParams "abc").withDebug false, .bootstrap) ∧
    (∃ params, parseStartParams someOptions.writeToBytes flags env = .ok (params, .legacy) ∧
      params.instanceId = "abc" ∧ params.ns = "k8s.io" ∧
      params.extensions = [{ value := some someOptions }]) ∧
    ∃ e, parseStartParams (someParams "someone-else").writeToBytes flags env = .error e := by
  intro flags env
  obtain ⟨hbootstrap, -, -⟩ := start_protocol_detected (someParams "abc").writeToBytes flags env
  obtain ⟨-, hlegacy, -⟩ := start_protocol_detected someOptions.writeToBytes flags env
  obtain ⟨-, -, hother⟩ :=
    start_protocol_detected (someParams "someone-else").writeToBytes flags env
  refine ⟨hbootstrap _ (by decide +kernel) rfl rfl (by decide),
    hlegacy _ (by decide +kernel) (by decide) (by decide) (by decide) (.inl rfl),
    hother (someParams "someone-else") (by decide +kernel) (by decide) ?_⟩
  exact .inr (.inr (.inl (by decide)))

/-- An `Any` with a third field is taken for the parameters of another shim. -/
theorem options_with_unknown_field_rejected :
    ¬∀ (input : List UInt8) (flags : Flags) (env : LegacyEnv) (a : AnyMessage),
      AnyMessage.parseFromBytes input = some a → a.typeUrl ≠ "" →
      ¬(a.typeUrl = flags.id ∧ a.value = Utf8.encode flags.ns) → env.ttrpcAddress ≠ "" →
      ∃ params, parseStartParams input flags env = .ok (params, .legacy) := by
  intro h
  let a : AnyMessage := { typeUrl := "t", unknownFields := [{ number := 3, value := .varint 1 }] }
  let flags : Flags := { id := "abc", ns := "k8s.io" }
  obtain ⟨params, hparams⟩ := h a.writeToBytes flags { ttrpcAddress := "/t" } a (by decide +kernel)
    (by decide) (by decide) (by decide)
  have hread : BootstrapParams.parseFromBytes a.writeToBytes =
      some { instanceId := "t", logLevel := 1 } := by decide +kernel
  have herror : parseBootstrapParams a.writeToBytes flags.id flags.ns = _ :=
    parseBootstrapParams_of_further hread (by decide) (.inl (by decide))
  rw [parseStartParams, herror] at hparams
  cases hparams

end StartParams
end RustExtensions.Shim
