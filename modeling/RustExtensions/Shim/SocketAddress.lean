import RustExtensions.Lib.KeyedMap
import RustExtensions.Shim.Bootstrap

/-!
# The address of a shim

Containers of one group share a shim, which is found by the address of its
socket: a hash of containerd's address, the namespace and the group. The hash
function is a parameter.
-/
namespace RustExtensions.Shim

open RustExtensions.KeyedMap (Map)

def groupLabels : List String := ["io.containerd.runc.v2.group", "io.kubernetes.cri.sandbox-id"]

/-- The group that `start_shim` picks from the annotations of the container's spec. -/
def pickGrouping (id : String) (annotations : Option (Map String String)) : String :=
  match annotations with
  | some annotations => (groupLabels.findSome? annotations.lookup).getD id
  | none => id

def socketRoot : String := "/run/containerd"

/-- What `socket_hash` feeds to the hash function. -/
def hashedPath (socketPath ns id : String) : String := joinPath (joinPath socketPath ns) id

/-- `{byte:02x}`. -/
def hexByte (b : UInt8) : List Char := [Nat.digitChar (b.toNat / 16), Nat.digitChar (b.toNat % 16)]

section Hash
variable (sha256 : List UInt8 → List UInt8)

def socketHash (socketPath ns id : String) : String :=
  String.ofList ((sha256 (Utf8.encode (hashedPath socketPath ns id))).flatMap hexByte)

def socketAddress (socketPath ns id : String) : String :=
  s!"unix://{socketRoot}/s/{socketHash sha256 socketPath ns id}"

/-- `trim_end_matches('/')`. -/
def trimEndSlashes (s : String) : String :=
  String.ofList (s.toList.reverse.dropWhile (· = '/')).reverse

def socketAddressIn (socketDir socketPath ns id : String) : String :=
  s!"unix://{trimEndSlashes socketDir}/{socketHash sha256 socketPath ns id}"

def StartOpts.socketAddress (opts : StartOpts) (grouping : String) : String :=
  match opts.socketDir with
  | some dir => socketAddressIn sha256 dir opts.address opts.ns grouping
  | none => Shim.socketAddress sha256 opts.address opts.ns grouping

end Hash

/-! ## Paths -/

/-- `<socket_path>/<namespace>/<id>`, with no slash doubled after the address. -/
def documentedPath (socketPath ns id : String) : String :=
  (if socketPath.toList.getLast?.all (· = '/') then socketPath else socketPath ++ "/") ++
    ns ++ "/" ++ id

def IsAbsolute (path : String) : Prop := path.toList.head? = some '/'

instance (path : String) : Decidable (IsAbsolute path) := inferInstanceAs (Decidable (_ = _))

/-- A namespace as containerd makes them. -/
structure IsNamespace (ns : String) : Prop where
  nonempty : ns ≠ ""
  slash : '/' ∉ ns.toList

/-- No grouping is the path that the other one stands for. -/
def GroupingsApart (socketPath ns ns' grouping grouping' : String) : Prop :=
  if IsAbsolute grouping then
    if IsAbsolute grouping' then grouping ≠ grouping'
    else grouping ≠ documentedPath socketPath ns' grouping'
  else IsAbsolute grouping' → documentedPath socketPath ns grouping ≠ grouping'

variable {socketPath ns ns' grouping grouping' : String}

theorem hashedPath_of_absolute (h : IsAbsolute grouping) :
    hashedPath socketPath ns grouping = grouping := if_pos h

theorem joinPath_of_relative (h : ¬IsAbsolute ns) : joinPath socketPath ns =
    if socketPath.toList.getLast?.all (· = '/') then socketPath ++ ns
    else socketPath ++ "/" ++ ns := if_neg h

theorem IsNamespace.toList_ne_nil (hns : IsNamespace ns) : ns.toList ≠ [] := by
  intro h
  exact hns.nonempty (String.toList_eq_nil_iff.mp h)

theorem IsNamespace.not_absolute (hns : IsNamespace ns) : ¬IsAbsolute ns :=
  fun h => hns.slash (List.mem_of_mem_head? h)

/-- A grouping that is no absolute path is hashed as documented. -/
theorem hashedPath_of_relative (hns : IsNamespace ns) (h : ¬IsAbsolute grouping) :
    hashedPath socketPath ns grouping = documentedPath socketPath ns grouping := by
  have hbase : joinPath socketPath ns =
      (if socketPath.toList.getLast?.all (· = '/') then socketPath else socketPath ++ "/") ++
        ns := by
    rw [joinPath_of_relative hns.not_absolute]
    split <;> rfl
  have hlast : ¬(joinPath socketPath ns).toList.getLast?.all (· = '/') := by
    have hne := hns.toList_ne_nil
    rw [hbase, String.toList_append, List.getLast?_append_of_ne_nil _ hne,
      List.getLast?_eq_some_getLast hne]
    have hmem := List.getLast_mem hne
    simp only [Option.all_some, decide_eq_true_eq]
    exact fun he => hns.slash (he ▸ hmem)
  rw [hashedPath, joinPath_of_relative h, if_neg hlast, hbase, documentedPath]

theorem takeWhile_slash {name rest : List Char} (h : '/' ∉ name) :
    (name ++ '/' :: rest).takeWhile (· ≠ '/') = name := by
  have hall : ∀ c ∈ name, decide (c ≠ '/') = true := by
    intro c hc
    exact decide_eq_true fun he => h (he ▸ hc)
  rw [List.takeWhile_append_of_pos hall]
  simp

/-- The documented paths of two namespaces are never the same. -/
theorem documentedPath_ne (hns : '/' ∉ ns.toList) (hns' : '/' ∉ ns'.toList) (hne : ns ≠ ns') :
    documentedPath socketPath ns grouping ≠ documentedPath socketPath ns' grouping' := by
  intro h
  have hlist := congrArg String.toList h
  simp only [documentedPath, String.toList_append, List.append_assoc] at hlist
  have htail := List.append_cancel_left hlist
  have hname := congrArg (List.takeWhile (· ≠ '/')) htail
  have hslash : "/".toList = ['/'] := by decide
  rw [hslash, List.singleton_append, List.singleton_append, takeWhile_slash hns,
    takeWhile_slash hns'] at hname
  exact hne (String.toList_inj.mp hname)

theorem hashedPath_ne (hns : IsNamespace ns) (hns' : IsNamespace ns') (hne : ns ≠ ns') :
    hashedPath socketPath ns grouping ≠ hashedPath socketPath ns' grouping' ↔
      GroupingsApart socketPath ns ns' grouping grouping' := by
  unfold GroupingsApart
  split
  · next h =>
    rw [hashedPath_of_absolute h]
    split
    · next h' => rw [hashedPath_of_absolute h']
    · next h' => rw [hashedPath_of_relative hns' h']
  · next h =>
    rw [hashedPath_of_relative hns h]
    by_cases h' : IsAbsolute grouping'
    · rw [hashedPath_of_absolute h']
      exact ⟨fun hapart _ => hapart, fun hapart => hapart h'⟩
    · rw [hashedPath_of_relative hns' h']
      have hapart : documentedPath socketPath ns grouping ≠ documentedPath socketPath ns' grouping' :=
        documentedPath_ne hns.slash hns'.slash hne
      exact ⟨fun _ habs => absurd habs h', fun _ => hapart⟩

/-! ## Addresses -/

theorem digitChar_inj : ∀ m < 16, ∀ n < 16, Nat.digitChar m = Nat.digitChar n → m = n := by
  decide

theorem hexByte_inj {b b' : UInt8} (h : hexByte b = hexByte b') : b = b' := by
  have hlt := b.toNat_lt
  have hlt' := b'.toNat_lt
  obtain ⟨hhigh, hlow⟩ := List.cons.inj h
  have hdiv := digitChar_inj _ (by omega) _ (by omega) hhigh
  have hmod := digitChar_inj _ (by omega) _ (by omega) (List.cons.inj hlow).1
  apply UInt8.toNat_inj.mp
  omega

theorem flatMap_hexByte_inj {bs bs' : List UInt8} (h : bs.flatMap hexByte = bs'.flatMap hexByte) :
    bs = bs' := by
  induction bs generalizing bs' with
  | nil =>
    cases bs' with
    | nil => rfl
    | cons b' bs' => simp [hexByte] at h
  | cons b bs ih =>
    cases bs' with
    | nil => simp [hexByte] at h
    | cons b' bs' =>
      rw [List.flatMap_cons, List.flatMap_cons] at h
      obtain ⟨hbyte, hrest⟩ := List.append_inj h rfl
      rw [hexByte_inj hbyte, ih hrest]

section Hash
variable {sha256 : List UInt8 → List UInt8} {socketPath' : String}

/-- Equal hashes are equal digests, however many bytes a digest has. -/
theorem socketHash_inj (h : socketHash sha256 socketPath ns grouping =
    socketHash sha256 socketPath' ns' grouping') :
    sha256 (Utf8.encode (hashedPath socketPath ns grouping)) =
      sha256 (Utf8.encode (hashedPath socketPath' ns' grouping')) :=
  flatMap_hexByte_inj (String.ofList_inj.mp h)

/-- For one directory, the address is the hash. -/
theorem StartOpts.socketHash_of_address {opts opts' : StartOpts}
    (hdir : opts.socketDir = opts'.socketDir)
    (h : opts.socketAddress sha256 grouping = opts'.socketAddress sha256 grouping') :
    socketHash sha256 opts.address opts.ns grouping =
      socketHash sha256 opts'.address opts'.ns grouping' := by
  unfold StartOpts.socketAddress at h
  rw [hdir] at h
  cases hd : opts'.socketDir with
  | some dir =>
    rw [hd] at h
    exact String.append_right_inj _ |>.mp h
  | none =>
    rw [hd] at h
    exact String.append_right_inj _ |>.mp h

/-- Two shims get different addresses if and only if their groupings are apart, as long as the
hash function has no collision on what is hashed for them. -/
theorem sockets_separated {opts opts' : StartOpts} (haddress : opts.address = opts'.address)
    (hdir : opts.socketDir = opts'.socketDir) (hns : IsNamespace opts.ns)
    (hns' : IsNamespace opts'.ns) (hne : opts.ns ≠ opts'.ns)
    (hcollision : sha256 (Utf8.encode (hashedPath opts.address opts.ns grouping)) =
        sha256 (Utf8.encode (hashedPath opts'.address opts'.ns grouping')) →
      hashedPath opts.address opts.ns grouping = hashedPath opts'.address opts'.ns grouping') :
    (hashedPath opts.address opts.ns grouping ≠ hashedPath opts'.address opts'.ns grouping' ↔
      GroupingsApart opts.address opts.ns opts'.ns grouping grouping') ∧
    (opts.socketAddress sha256 grouping ≠ opts'.socketAddress sha256 grouping' ↔
      GroupingsApart opts.address opts.ns opts'.ns grouping grouping') := by
  have hpath : hashedPath opts.address opts.ns grouping ≠
      hashedPath opts.address opts'.ns grouping' ↔ _ := hashedPath_ne hns hns' hne
  rw [haddress] at hpath
  have hsame : opts.socketAddress sha256 grouping = opts'.socketAddress sha256 grouping' ↔
      hashedPath opts.address opts.ns grouping = hashedPath opts'.address opts'.ns grouping' := by
    constructor
    · intro h
      exact hcollision (socketHash_inj (StartOpts.socketHash_of_address hdir h))
    · intro h
      unfold StartOpts.socketAddress socketAddressIn Shim.socketAddress socketHash
      rw [hdir, h]
  rw [haddress] at hsame ⊢
  exact ⟨hpath, (not_congr hsame).trans hpath⟩

/-- SHA-256 on the two paths below. -/
def testDigest (input : List UInt8) : List UInt8 :=
  if input = Utf8.encode "/run/containerd/containerd.sock/default/123" then
    [13, 223, 189, 114, 208, 43, 53, 81, 231, 95, 58, 14, 217, 11, 153, 101, 181, 51, 64, 27, 230,
      24, 244, 58, 86, 139, 197, 34, 118, 78, 10, 208]
  else
    [160, 247, 21, 246, 196, 66, 192, 240, 90, 164, 195, 132, 35, 214, 11, 254, 188, 222, 247, 90,
      14, 55, 99, 40, 37, 43, 204, 171, 185, 39, 86, 35]

def testOpts (ns : String) : StartOpts where
  address := "/run/containerd/containerd.sock"
  ns := ns

example : (testOpts "default").socketAddress testDigest "123" =
    "unix:///run/containerd/s/0ddfbd72d02b3551e75f3a0ed90b9965b533401be618f43a568bc522764e0ad0" := by
  decide +kernel

theorem sockets_separated_default :
    (testOpts "default").socketAddress testDigest "123" ≠
        (testOpts "k8s.io").socketAddress testDigest "123" ↔
      GroupingsApart "/run/containerd/containerd.sock" "default" "k8s.io" "123" "123" := by
  have haddress : (testOpts "default").address = (testOpts "k8s.io").address := rfl
  refine (sockets_separated haddress rfl ⟨by decide, by decide⟩ ⟨by decide, by decide⟩
    (by decide) ?_).2
  decide +kernel

/-- An annotation that is an absolute path takes the place of everything before it. -/
theorem absolute_grouping_shared :
    ¬∀ (socketPath ns ns' id id' : String) (annotations annotations' : Option (Map String String)),
      IsNamespace ns → IsNamespace ns' → ns ≠ ns' →
      hashedPath socketPath ns (pickGrouping id annotations) ≠
        hashedPath socketPath ns' (pickGrouping id' annotations') := by
  intro h
  let annotations : Map String String :=
    AList.insert "io.kubernetes.cri.sandbox-id" "/sandbox" ∅
  refine h "/run/containerd/containerd.sock" "default" "k8s.io" "a" "b" (some annotations)
    (some annotations) ⟨by decide, by decide⟩ ⟨by decide, by decide⟩ (by decide) ?_
  decide +kernel

end Hash
end RustExtensions.Shim
