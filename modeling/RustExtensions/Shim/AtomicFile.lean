import RustExtensions.Lib.Inodes
import RustExtensions.Lib.Paths
import RustExtensions.Lib.Transition
import RustExtensions.Shim.Error

/-!
# Files that are replaced at once

`write_str_atomic` writes a temporary file beside the one it is asked for, and
renames it. Many calls for one file and many readers of it may be under way; a
call may fail at every system call, and its process may die between any two.
-/
namespace RustExtensions.Shim

open RustExtensions.Inodes
open RustExtensions.Transition

/-- `Path::file_name`. -/
def fileName (path : List Char) : Option Paths.Name :=
  match ((Paths.segments path).filter fun n => n ≠ [] ∧ n ≠ ['.']).getLast? with
  | some ['.', '.'] => none
  | name => name

/-- The names of the directory: the file, and the temporary ones, which are `.shim-` and a random
suffix. -/
inductive FileName where
  | target
  | temp (suffix : String)
  deriving DecidableEq

abbrev Bytes := List UInt8

/-- A call of `write_str_atomic`. `rest` is what `write_all` has not written yet, and a call that
is over may have left its temporary file behind; its result is `none` if its process died. -/
inductive Writer where
  | idle
  | writing (suffix : String) (ino : Nat) (contents rest : Bytes)
  | dropping (suffix : String) (contents : Bytes) (e : Error)
  | gone (left : Option String) (contents : Bytes) (result : Option (Except Error Unit))

/-- A call of `read_file_to_str`. Nothing reads what the file held when it was opened. -/
inductive Reader where
  | idle
  | reading (ino : Nat) (acc opened : Bytes)
  | finished (acc opened : Bytes)

/-- Nothing reads what the calls put in place, in order. -/
structure AtomicFile where
  dir : Directory FileName UInt8
  writer : Nat → Writer := fun _ => .idle
  reader : Nat → Reader := fun _ => .idle
  versions : List (Nat × Bytes) := []

inductive FileAction where
  | create (i : Nat) (suffix : String) (contents : Bytes)
  | createFails (i : Nat) (contents : Bytes) (err : String)
  | write (i n : Nat) | writeFails (i : Nat) (err : String)
  | persist (i : Nat) | persistFails (i : Nat) (err : String)
  | drop (i : Nat) (ok : Bool)
  | crash (i : Nat)
  | openFile (r : Nat) | read (r n : Nat) | readEof (r : Nat)

namespace AtomicFile

def setWriter (s : AtomicFile) (i : Nat) (w : Writer) : AtomicFile :=
  { s with writer := Function.update s.writer i w }

def setReader (s : AtomicFile) (r : Nat) (x : Reader) : AtomicFile :=
  { s with reader := Function.update s.reader r x }

/-- What the call does on `filename`, which it displays in its errors. -/
def step (filename : List Char) (s : AtomicFile) : FileAction → Option AtomicFile
  | .create i suffix contents =>
    match s.writer i, fileName filename with
    | .idle, some _ => (s.dir.createNew (.temp suffix)).map fun dir =>
      { s.setWriter i (.writing suffix s.dir.fresh contents contents) with dir }
    | _, _ => none
  | .createFails i contents err =>
    match s.writer i with
    | .idle =>
      let e := match fileName filename with
        | none => .invalidArgument s!"invalid file path {String.ofList filename}"
        | some _ => .ioError s!"create temporary file for {String.ofList filename}" err
      some (s.setWriter i (.gone none contents (some (.error e))))
    | _ => none
  | .write i n =>
    match s.writer i with
    | .writing suffix ino contents rest =>
      if 0 < n ∧ n ≤ rest.length then
        some { s.setWriter i (.writing suffix ino contents (rest.drop n)) with
          dir := s.dir.append ino (rest.take n) }
      else none
    | _ => none
  | .writeFails i err =>
    match s.writer i with
    | .writing suffix _ contents (_ :: _) =>
      let e := .ioError s!"write temporary file for {String.ofList filename}" err
      some (s.setWriter i (.dropping suffix contents e))
    | _ => none
  | .persist i =>
    match s.writer i with
    | .writing suffix _ contents [] =>
      some { s.setWriter i (.gone none contents (some (.ok ()))) with
        dir := s.dir.rename (.temp suffix) .target
        versions := s.versions ++ [(i, contents)] }
    | _ => none
  | .persistFails i err =>
    match s.writer i with
    | .writing suffix _ contents [] =>
      let e := .ioError s!"replace {String.ofList filename}" err
      some (s.setWriter i (.dropping suffix contents e))
    | _ => none
  | .drop i ok =>
    match s.writer i with
    | .dropping suffix contents e =>
      if ok then
        some { s.setWriter i (.gone none contents (some (.error e))) with
          dir := s.dir.unlink (.temp suffix) }
      else some (s.setWriter i (.gone (some suffix) contents (some (.error e))))
    | _ => none
  | .crash i =>
    match s.writer i with
    | .writing suffix _ contents _ | .dropping suffix contents _ =>
      some (s.setWriter i (.gone (some suffix) contents none))
    | _ => none
  | .openFile r =>
    match s.reader r, s.dir.entry .target with
    | .idle, some ino => some (s.setReader r (.reading ino [] (s.dir.content ino)))
    | _, _ => none
  | .read r n =>
    match s.reader r with
    | .reading ino acc opened =>
      let next := (s.dir.content ino).drop acc.length
      if 0 < n ∧ next ≠ [] then some (s.setReader r (.reading ino (acc ++ next.take n) opened))
      else none
    | _ => none
  | .readEof r =>
    match s.reader r with
    | .reading ino acc opened =>
      if (s.dir.content ino).length ≤ acc.length then some (s.setReader r (.finished acc opened))
      else none
    | _ => none

/-- What the file holds. -/
def file (s : AtomicFile) : Option Bytes := s.dir.lookup .target

end AtomicFile

/-- The file may be there before. -/
def atomicFile (filename : List Char) (old : Option Bytes) : System AtomicFile FileAction where
  init :=
    { dir :=
        { entry := fun n => if n = .target then old.map fun _ => 0 else none
          content := fun _ => old.getD []
          fresh := 1 } }
  step := AtomicFile.step filename

/-- The call has made the temporary file, and it may still be there. -/
def Writer.Holds (suffix : String) : Writer → Prop
  | .idle => False
  | .writing s .. | .dropping s .. => s = suffix
  | .gone left .. => left = some suffix

theorem Writer.Holds.unique {w : Writer} {suffix suffix' : String} (h : w.Holds suffix)
    (h' : w.Holds suffix') : suffix' = suffix := by
  cases w with
  | idle => exact h.elim
  | writing s ino contents rest => exact Eq.trans (Eq.symm h') h
  | dropping s contents e => exact Eq.trans (Eq.symm h') h
  | gone left contents result => exact Option.some.inj (Eq.trans (Eq.symm h') h)

namespace AtomicFile

variable {s t : AtomicFile} {a : FileAction} {filename : List Char} {old : Option Bytes}
  {i k r : Nat} {w : Writer} {x : Reader}

@[simp] theorem setWriter_self : (s.setWriter i w).writer i = w := Function.update_self ..

theorem setWriter_of_ne (h : k ≠ i) : (s.setWriter i w).writer k = s.writer k :=
  Function.update_of_ne h ..

@[simp] theorem setReader_self : (s.setReader r x).reader r = x := Function.update_self ..

theorem setReader_of_ne (h : k ≠ r) : (s.setReader r x).reader k = s.reader k :=
  Function.update_of_ne h ..

/-- What a step can do. -/
inductive Step (s : AtomicFile) : AtomicFile → Prop
  | created (i : Nat) (suffix : String) (contents : Bytes) (dir : Directory FileName UInt8)
    (hidle : s.writer i = .idle) (hdir : s.dir.createNew (.temp suffix) = some dir) :
    Step s { s.setWriter i (.writing suffix s.dir.fresh contents contents) with dir }
  | wrote (i n ino : Nat) (suffix : String) (contents rest : Bytes)
    (hwriter : s.writer i = .writing suffix ino contents rest) :
    Step s { s.setWriter i (.writing suffix ino contents (rest.drop n)) with
      dir := s.dir.append ino (rest.take n) }
  | persisted (i ino : Nat) (suffix : String) (contents : Bytes)
    (hwriter : s.writer i = .writing suffix ino contents []) :
    Step s { s.setWriter i (.gone none contents (some (.ok ()))) with
      dir := s.dir.rename (.temp suffix) .target
      versions := s.versions ++ [(i, contents)] }
  | unlinked (i : Nat) (suffix : String) (contents : Bytes) (e : Error)
    (hwriter : s.writer i = .dropping suffix contents e) :
    Step s { s.setWriter i (.gone none contents (some (.error e))) with
      dir := s.dir.unlink (.temp suffix) }
  | moved (i : Nat) (w : Writer) (hbefore : ∀ left contents result,
      s.writer i ≠ .gone left contents result)
    (hafter : ∀ suffix ino contents rest, w ≠ .writing suffix ino contents rest)
    (hresult : ∀ left contents, w ≠ .gone left contents (some (.ok ())))
    (hholds : ∀ suffix, w.Holds suffix ↔ (s.writer i).Holds suffix) : Step s (s.setWriter i w)
  | opened (r ino : Nat) (hreader : s.reader r = .idle) (hentry : s.dir.entry .target = some ino) :
    Step s (s.setReader r (.reading ino [] (s.dir.content ino)))
  | read (r ino n : Nat) (acc opened : Bytes) (hreader : s.reader r = .reading ino acc opened) :
    Step s (s.setReader r
      (.reading ino (acc ++ ((s.dir.content ino).drop acc.length).take n) opened))
  | finished (r ino : Nat) (acc opened : Bytes) (hreader : s.reader r = .reading ino acc opened)
    (hend : (s.dir.content ino).length ≤ acc.length) :
    Step s (s.setReader r (.finished acc opened))

theorem step_cases (h : s.step filename a = some t) : Step s t := by
  cases a with
  | create i suffix contents =>
    unfold step at h
    dsimp only at h
    split at h
    · next hidle _ =>
      obtain ⟨dir, hdir, rfl⟩ := Option.map_eq_some_iff.mp h
      exact .created i suffix contents dir hidle hdir
    · cases h
  | createFails i contents err =>
    unfold step at h
    dsimp only at h
    split at h
    · next hidle =>
      obtain rfl := Option.some.inj h
      exact .moved i _ (by simp [hidle]) nofun nofun (by simp [hidle, Writer.Holds])
    · cases h
  | write i n =>
    unfold step at h
    dsimp only at h
    split at h
    · next suffix ino contents rest hwriter =>
      obtain ⟨-, rfl⟩ := (Option.ite_none_right_eq_some.mp h).imp_right Option.some.inj
      exact .wrote i n ino suffix contents rest hwriter
    · cases h
  | writeFails i err =>
    unfold step at h
    dsimp only at h
    split at h
    · next hwriter =>
      obtain rfl := Option.some.inj h
      exact .moved i _ (by simp [hwriter]) nofun nofun (by simp [hwriter, Writer.Holds])
    · cases h
  | persist i =>
    unfold step at h
    dsimp only at h
    split at h
    · next suffix ino contents hwriter =>
      obtain rfl := Option.some.inj h
      exact .persisted i ino suffix contents hwriter
    · cases h
  | persistFails i err =>
    unfold step at h
    dsimp only at h
    split at h
    · next hwriter =>
      obtain rfl := Option.some.inj h
      exact .moved i _ (by simp [hwriter]) nofun nofun (by simp [hwriter, Writer.Holds])
    · cases h
  | drop i ok =>
    unfold step at h
    dsimp only at h
    split at h
    · next suffix contents e hwriter =>
      cases ok with
      | true =>
        obtain rfl := Option.some.inj h
        exact .unlinked i suffix contents e hwriter
      | false =>
        obtain rfl := Option.some.inj h
        exact .moved i _ (by simp [hwriter]) nofun nofun (by simp [hwriter, Writer.Holds])
    · cases h
  | crash i =>
    unfold step at h
    dsimp only at h
    split at h
    · next hwriter =>
      obtain rfl := Option.some.inj h
      exact .moved i _ (by simp [hwriter]) nofun nofun (by simp [hwriter, Writer.Holds])
    · next hwriter =>
      obtain rfl := Option.some.inj h
      exact .moved i _ (by simp [hwriter]) nofun nofun (by simp [hwriter, Writer.Holds])
    · cases h
  | openFile r =>
    unfold step at h
    dsimp only at h
    split at h
    · next ino hreader hentry =>
      obtain rfl := Option.some.inj h
      exact .opened r ino hreader hentry
    · cases h
  | read r n =>
    unfold step at h
    dsimp only at h
    split at h
    · next ino acc opened hreader =>
      obtain ⟨-, rfl⟩ := (Option.ite_none_right_eq_some.mp h).imp_right Option.some.inj
      exact .read r ino n acc opened hreader
    · cases h
  | readEof r =>
    unfold step at h
    dsimp only at h
    split at h
    · next ino acc opened hreader =>
      obtain ⟨hend, rfl⟩ := (Option.ite_none_right_eq_some.mp h).imp_right Option.some.inj
      exact .finished r ino acc opened hreader hend
    · cases h

/-! ## The calls -/

/-- The temporary files are those of the calls, each of which writes its own, and the file is the
one that was put in place last. -/
structure Written (old : Option Bytes) (s : AtomicFile) : Prop where
  dir : s.dir.Sound
  writing : ∀ i suffix ino contents rest, s.writer i = .writing suffix ino contents rest →
    s.dir.entry (.temp suffix) = some ino ∧ s.dir.content ino ++ rest = contents
  held : ∀ i j suffix, (s.writer i).Holds suffix → (s.writer j).Holds suffix → i = j
  temp : ∀ suffix, s.dir.entry (.temp suffix) ≠ none ↔ ∃ i, (s.writer i).Holds suffix
  file : s.file = (s.versions.getLast?.map Prod.snd).or old
  result : ∀ i contents, (i, contents) ∈ s.versions ↔
    ∃ left, s.writer i = .gone left contents (some (.ok ()))

theorem Written.init : Written old (atomicFile filename old).init where
  dir := by
    have htarget (n : FileName) (ino : Nat)
        (h : (atomicFile filename old).init.dir.entry n = some ino) : n = .target ∧ ino = 0 := by
      obtain ⟨hn, h⟩ := Option.ite_none_right_eq_some.mp h
      obtain ⟨-, -, rfl⟩ := Option.map_eq_some_iff.mp h
      exact ⟨hn, rfl⟩
    refine ⟨fun n ino h => ?_, fun n m ino hn hm => ?_⟩
    · rw [(htarget n ino h).2]
      exact Nat.one_pos
    · rw [(htarget n ino hn).1, (htarget m ino hm).1]
  writing := nofun
  held := nofun
  temp suffix := by
    simp [atomicFile, Writer.Holds]
  file := by
    cases old <;> rfl
  result := by simp [atomicFile]

/-- A call holds on to the file that it has, or takes one that nobody has. -/
theorem held_set (hs : ∀ i j suffix, (s.writer i).Holds suffix → (s.writer j).Holds suffix → i = j)
    (h : ∀ suffix, w.Holds suffix → (s.writer i).Holds suffix ∨ ∀ k, ¬(s.writer k).Holds suffix) :
    ∀ k l suffix, ((s.setWriter i w).writer k).Holds suffix →
      ((s.setWriter i w).writer l).Holds suffix → k = l := by
  have hother (k : Nat) (suffix : String) (hk : k ≠ i)
      (hholds : ((s.setWriter i w).writer k).Holds suffix) : ¬w.Holds suffix := fun hw => by
    rw [setWriter_of_ne hk] at hholds
    exact (h suffix hw).elim (fun hi => hk (hs k i suffix hholds hi)) fun hnone =>
      hnone k hholds
  intro k l suffix hk hl
  by_cases hki : k = i
  · by_cases hli : l = i
    · rw [hki, hli]
    · subst hki
      rw [setWriter_self] at hk
      exact absurd hk (hother l suffix hli hl)
  · by_cases hli : l = i
    · subst hli
      rw [setWriter_self] at hl
      exact absurd hl (hother k suffix hki hk)
    · rw [setWriter_of_ne hki] at hk
      rw [setWriter_of_ne hli] at hl
      exact hs k l suffix hk hl

theorem exists_holds_set {suffix : String} :
    (∃ k, ((s.setWriter i w).writer k).Holds suffix) ↔
      w.Holds suffix ∨ ∃ k, k ≠ i ∧ (s.writer k).Holds suffix := by
  constructor
  · rintro ⟨k, hk⟩
    by_cases hki : k = i
    · subst hki
      rw [setWriter_self] at hk
      exact .inl hk
    · rw [setWriter_of_ne hki] at hk
      exact .inr ⟨k, hki, hk⟩
  · rintro (hw | ⟨k, hki, hk⟩)
    · exact ⟨i, by rwa [setWriter_self]⟩
    · exact ⟨k, by rwa [setWriter_of_ne hki]⟩

theorem exists_holds_congr {suffix : String} (h : w.Holds suffix ↔ (s.writer i).Holds suffix) :
    (∃ k, ((s.setWriter i w).writer k).Holds suffix) ↔ ∃ k, (s.writer k).Holds suffix := by
  rw [exists_holds_set, h]
  constructor
  · rintro (hi | ⟨k, -, hk⟩)
    · exact ⟨i, hi⟩
    · exact ⟨k, hk⟩
  · rintro ⟨k, hk⟩
    by_cases hki : k = i
    · exact .inl (hki ▸ hk)
    · exact .inr ⟨k, hki, hk⟩

theorem result_set (hs : ∀ i contents, (i, contents) ∈ s.versions ↔
      ∃ left, s.writer i = .gone left contents (some (.ok ())))
    (hbefore : ∀ left contents result, s.writer i ≠ .gone left contents result)
    (hresult : ∀ left contents, w ≠ .gone left contents (some (.ok ()))) (k : Nat)
    (contents : Bytes) : (k, contents) ∈ s.versions ↔
      ∃ left, (s.setWriter i w).writer k = .gone left contents (some (.ok ())) := by
  rw [hs]
  by_cases hki : k = i
  · subst hki
    rw [setWriter_self]
    exact iff_of_false (fun ⟨left, h⟩ => hbefore _ _ _ h) fun ⟨left, h⟩ => hresult _ _ h
  · rw [setWriter_of_ne hki]

theorem file_congr (hentry : t.dir.entry .target = s.dir.entry .target)
    (hcontent : ∀ ino, s.dir.entry .target = some ino → t.dir.content ino = s.dir.content ino) :
    t.file = s.file := by
  unfold file Directory.lookup
  rw [hentry]
  cases h : s.dir.entry .target with
  | none => rfl
  | some ino => exact congrArg some (hcontent ino h)

/-- The calls that are not the one at hand have other temporary files. -/
theorem Written.other (hs : s.Written old) {suffix suffix' : String} (hki : k ≠ i)
    (hi : (s.writer i).Holds suffix) (hk : (s.writer k).Holds suffix') : suffix' ≠ suffix :=
  fun h => hki (hs.held k i suffix (h ▸ hk) hi)

/-- What the other calls have is what is there but for the one that this call has. -/
theorem Written.temp_rest (hs : s.Written old) {suffix suffix' : String}
    (hi : (s.writer i).Holds suffix) :
    (∃ k, k ≠ i ∧ (s.writer k).Holds suffix') ↔
      suffix' ≠ suffix ∧ s.dir.entry (.temp suffix') ≠ none := by
  rw [hs.temp]
  constructor
  · rintro ⟨k, hki, hk⟩
    exact ⟨hs.other hki hi hk, k, hk⟩
  · rintro ⟨hne, k, hk⟩
    exact ⟨k, fun hki => hne (hi.unique (hki ▸ hk)), hk⟩

theorem Written.step (hs : s.Written old) (h : Step s t) : t.Written old := by
  have ⟨hdir, hwriting, hheld, htemp, hfile, hresult⟩ := hs
  cases h with
  | created i suffix contents dir hidle hcreate =>
    obtain ⟨hnone, rfl⟩ := Directory.createNew_eq_some.mp hcreate
    have hnobody : ∀ k, ¬(s.writer k).Holds suffix := fun k hk =>
      (htemp suffix).mpr ⟨k, hk⟩ hnone
    refine ⟨hdir.createNew hcreate, ?_, ?_, ?_, ?_, result_set hresult (by simp [hidle]) nofun⟩
    · intro k suffix' ino contents' rest hk
      by_cases hki : k = i
      · subst hki
        rw [setWriter_self] at hk
        obtain ⟨rfl, rfl, rfl, rfl⟩ := Writer.writing.inj hk
        exact ⟨Function.update_self .., by simp⟩
      · rw [setWriter_of_ne hki] at hk
        obtain ⟨hentry, hcontent⟩ := hwriting k suffix' ino contents' rest hk
        have hne : FileName.temp suffix' ≠ .temp suffix := fun h => by
          rw [h, hnone] at hentry
          cases hentry
        have hino : ino ≠ s.dir.fresh := Nat.ne_of_lt (hdir.made _ _ hentry)
        simp only [Function.update_of_ne hne, Function.update_of_ne hino]
        exact ⟨hentry, hcontent⟩
    · refine held_set hheld fun suffix' hw => .inr ?_
      obtain rfl : suffix = suffix' := hw
      exact hnobody
    · intro suffix'
      rw [exists_holds_set]
      by_cases hne : suffix' = suffix
      · subst hne
        simp only [Function.update_self]
        exact iff_of_true nofun (.inl rfl)
      · have htempne : FileName.temp suffix' ≠ .temp suffix := fun h => hne (FileName.temp.inj h)
        simp only [Function.update_of_ne htempne]
        rw [htemp]
        constructor
        · rintro ⟨k, hk⟩
          refine .inr ⟨k, fun hki => ?_, hk⟩
          rw [hki, hidle] at hk
          exact hk
        · rintro (hw | ⟨k, -, hk⟩)
          · exact absurd hw.symm hne
          · exact ⟨k, hk⟩
    · refine Eq.trans (file_congr (s := s) ?_ fun ino hino => ?_) hfile
      · simp
      · have hne : ino ≠ s.dir.fresh := Nat.ne_of_lt (hdir.made _ _ hino)
        simp [hne]
  | wrote i n ino suffix contents rest hwriter =>
    obtain ⟨hentry, hcontent⟩ := hwriting i suffix ino contents rest hwriter
    have hholds (suffix' : String) :
        (Writer.writing suffix ino contents (rest.drop n)).Holds suffix' ↔
          (s.writer i).Holds suffix' := by
      rw [hwriter]
      rfl
    refine ⟨hdir.append, ?_, held_set hheld fun suffix' hw => .inl ((hholds suffix').mp hw), ?_, ?_,
      result_set hresult (by simp [hwriter]) nofun⟩
    · intro k suffix' ino' contents' rest' hk
      by_cases hki : k = i
      · subst hki
        rw [setWriter_self] at hk
        obtain ⟨rfl, rfl, rfl, rfl⟩ := Writer.writing.inj hk
        refine ⟨hentry, ?_⟩
        rw [Directory.append_content_self, List.append_assoc, List.take_append_drop]
        exact hcontent
      · rw [setWriter_of_ne hki] at hk
        obtain ⟨hentry', hcontent'⟩ := hwriting k suffix' ino' contents' rest' hk
        have hne : suffix' ≠ suffix :=
          hs.other hki (i := i) (by rw [hwriter]; rfl) (by rw [hk]; rfl)
        have hino : ino' ≠ ino := fun h =>
          hne (FileName.temp.inj (hdir.apart _ _ _ hentry' (h ▸ hentry)))
        exact ⟨hentry', (Directory.append_content_of_ne hino).symm ▸ hcontent'⟩
    · intro suffix'
      rw [exists_holds_congr (hholds suffix')]
      exact htemp suffix'
    · refine Eq.trans (file_congr (s := s) rfl fun ino' hino' => ?_) hfile
      refine Directory.append_content_of_ne fun h => ?_
      subst h
      cases hdir.apart .target (.temp suffix) ino' hino' hentry
  | persisted i ino suffix contents hwriter =>
    obtain ⟨hentry, hcontent⟩ := hwriting i suffix ino contents [] hwriter
    have hi : (s.writer i).Holds suffix := by
      rw [hwriter]
      rfl
    have hgone : (s.dir.rename (.temp suffix) .target).entry (.temp suffix) = none :=
      Directory.rename_entry_old (by simp)
    have hkept {suffix' : String} (hne : suffix' ≠ suffix) :
        (s.dir.rename (.temp suffix) .target).entry (.temp suffix') =
          s.dir.entry (.temp suffix') :=
      Directory.rename_entry_of_ne (by simpa using hne) (by simp)
    refine ⟨hdir.rename, ?_, held_set hheld nofun, ?_, ?_, ?_⟩
    · intro k suffix' ino' contents' rest' hk
      by_cases hki : k = i
      · subst hki
        rw [setWriter_self] at hk
        cases hk
      · rw [setWriter_of_ne hki] at hk
        have hne := hs.other hki hi (show (s.writer k).Holds suffix' by rw [hk]; rfl)
        exact (hwriting k suffix' ino' contents' rest' hk).imp_left (hkept hne).trans
    · intro suffix'
      rw [exists_holds_set, hs.temp_rest hi]
      by_cases hne : suffix' = suffix
      · subst hne
        simp [hgone, Writer.Holds]
      · simp [hkept hne, Writer.Holds, hne]
    · rw [List.append_nil] at hcontent
      simp [AtomicFile.file, Directory.lookup, hentry, hcontent]
    · intro k contents'
      rw [List.mem_append, List.mem_singleton]
      by_cases hki : k = i
      · subst hki
        rw [setWriter_self, hresult, hwriter]
        simp [eq_comm]
      · rw [setWriter_of_ne hki, hresult]
        simp [hki]
  | unlinked i suffix contents e hwriter =>
    have hi : (s.writer i).Holds suffix := by
      rw [hwriter]
      rfl
    have hkept {suffix' : String} (hne : suffix' ≠ suffix) :
        (s.dir.unlink (.temp suffix)).entry (.temp suffix') = s.dir.entry (.temp suffix') :=
      Directory.unlink_entry_of_ne (by simpa using hne)
    refine ⟨hdir.unlink, ?_, held_set hheld nofun, ?_, ?_,
      result_set hresult (by simp [hwriter]) nofun⟩
    · intro k suffix' ino' contents' rest' hk
      by_cases hki : k = i
      · subst hki
        rw [setWriter_self] at hk
        cases hk
      · rw [setWriter_of_ne hki] at hk
        have hne := hs.other hki hi (show (s.writer k).Holds suffix' by rw [hk]; rfl)
        exact (hwriting k suffix' ino' contents' rest' hk).imp_left (hkept hne).trans
    · intro suffix'
      rw [exists_holds_set, hs.temp_rest hi]
      by_cases hne : suffix' = suffix
      · subst hne
        simp [Writer.Holds]
      · simp [hkept hne, Writer.Holds, hne]
    · refine Eq.trans (file_congr (s := s) ?_ fun _ _ => rfl) hfile
      exact Directory.unlink_entry_of_ne (by simp)
  | moved i w hbefore hafter hnot hholds =>
    refine ⟨hdir, ?_, held_set hheld fun suffix hw => .inl ((hholds suffix).mp hw), ?_, hfile,
      result_set hresult hbefore hnot⟩
    · intro k suffix ino contents rest hk
      by_cases hki : k = i
      · subst hki
        rw [setWriter_self] at hk
        exact (hafter _ _ _ _ hk).elim
      · rw [setWriter_of_ne hki] at hk
        exact hwriting k suffix ino contents rest hk
    · intro suffix
      rw [exists_holds_congr (hholds suffix)]
      exact htemp suffix
  | opened _ _ _ _ => exact ⟨hdir, hwriting, hheld, htemp, hfile, hresult⟩
  | read _ _ _ _ _ _ => exact ⟨hdir, hwriting, hheld, htemp, hfile, hresult⟩
  | finished _ _ _ _ _ _ => exact ⟨hdir, hwriting, hheld, htemp, hfile, hresult⟩

theorem written (h : (atomicFile filename old).Reachable System.Any s) : s.Written old :=
  h.invariant .init fun _ _ _ _ hs _ hstep => hs.step (step_cases hstep)

/-! ## The readers -/

/-- The file that a reader has open is written no more. -/
structure Opened (s : AtomicFile) (ino : Nat) (opened : Bytes) : Prop where
  made : ino < s.dir.fresh
  content : s.dir.content ino = opened
  name : ∀ suffix, s.dir.entry (.temp suffix) ≠ some ino

/-- What the file held once. -/
def Version (old : Option Bytes) (s : AtomicFile) (contents : Bytes) : Prop :=
  old = some contents ∨ contents ∈ s.versions.map Prod.snd

structure ReadOnly (old : Option Bytes) (s : AtomicFile) : Prop where
  reading : ∀ r ino acc opened, s.reader r = .reading ino acc opened →
    s.Opened ino opened ∧ acc <+: opened ∧ s.Version old opened
  finished : ∀ r acc opened, s.reader r = .finished acc opened →
    acc = opened ∧ s.Version old opened

theorem version_of_file (h : s.Written old) {contents : Bytes} (hfile : s.file = some contents) :
    s.Version old contents := by
  rw [h.file, Option.or_eq_some_iff] at hfile
  obtain hlast | ⟨-, hold⟩ := hfile
  · obtain ⟨v, hv, rfl⟩ := Option.map_eq_some_iff.mp hlast
    exact .inr (List.mem_map_of_mem (List.mem_of_getLast? hv))
  · exact .inl hold

theorem Opened.step {ino : Nat} {opened : Bytes} (ho : s.Opened ino opened) (hs : s.Written old)
    (h : Step s t) : t.Opened ino opened := by
  obtain ⟨hmade, hcontent, hname⟩ := ho
  cases h with
  | created i suffix contents dir hidle hcreate =>
    obtain ⟨-, rfl⟩ := Directory.createNew_eq_some.mp hcreate
    have hne : ino ≠ s.dir.fresh := Nat.ne_of_lt hmade
    refine ⟨Nat.lt_succ_of_lt hmade, by simpa [hne] using hcontent, fun suffix' => ?_⟩
    by_cases heq : suffix' = suffix
    · subst heq
      simpa using hne.symm
    · simpa [heq] using hname suffix'
  | wrote i n ino' suffix contents rest hwriter =>
    have hne : ino ≠ ino' := fun h => hname suffix (h ▸ (hs.writing _ _ _ _ _ hwriter).1)
    exact ⟨hmade, (Directory.append_content_of_ne hne).trans hcontent, hname⟩
  | persisted i ino' suffix contents hwriter =>
    refine ⟨hmade, hcontent, fun suffix' h => ?_⟩
    obtain ⟨h, -⟩ | ⟨-, -, h⟩ := Directory.entry_of_rename h
    · cases h
    · exact hname suffix' h
  | unlinked i suffix contents e hwriter =>
    exact ⟨hmade, hcontent, fun suffix' h => hname suffix' (Directory.entry_of_unlink h).2⟩
  | moved _ _ _ _ _ _ => exact ⟨hmade, hcontent, hname⟩
  | opened _ _ _ _ => exact ⟨hmade, hcontent, hname⟩
  | read _ _ _ _ _ _ => exact ⟨hmade, hcontent, hname⟩
  | finished _ _ _ _ _ _ => exact ⟨hmade, hcontent, hname⟩

theorem Version.step {contents : Bytes} (hv : s.Version old contents) (h : Step s t) :
    t.Version old contents := by
  cases h with
  | persisted i ino suffix contents' hwriter =>
    refine hv.imp_right fun hmem => ?_
    rw [List.map_append]
    exact List.mem_append_left _ hmem
  | _ => exact hv

theorem ReadOnly.init : ReadOnly old (atomicFile filename old).init := ⟨nofun, nofun⟩

/-- A step that leaves the readers alone. -/
theorem ReadOnly.frame (hr : s.ReadOnly old) (hs : s.Written old) (h : Step s t)
    (hreader : t.reader = s.reader) : t.ReadOnly old := by
  constructor
  · intro r ino acc opened hread
    rw [hreader] at hread
    obtain ⟨hopened, hacc, hversion⟩ := hr.reading r ino acc opened hread
    exact ⟨hopened.step hs h, hacc, hversion.step h⟩
  · intro r acc opened hread
    rw [hreader] at hread
    exact (hr.finished r acc opened hread).imp_right fun hversion => hversion.step h

theorem Opened.set {ino : Nat} {opened : Bytes} (ho : s.Opened ino opened) :
    (s.setReader r x).Opened ino opened := ⟨ho.made, ho.content, ho.name⟩

theorem ReadOnly.set (hr : s.ReadOnly old)
    (hreading : ∀ ino acc opened, x = .reading ino acc opened →
      s.Opened ino opened ∧ acc <+: opened ∧ s.Version old opened)
    (hfinished : ∀ acc opened, x = .finished acc opened → acc = opened ∧ s.Version old opened) :
    (s.setReader r x).ReadOnly old := by
  constructor
  · intro k ino acc opened hread
    by_cases hkr : k = r
    · subst hkr
      rw [setReader_self] at hread
      exact (hreading ino acc opened hread).imp_left Opened.set
    · rw [setReader_of_ne hkr] at hread
      exact (hr.reading k ino acc opened hread).imp_left fun h => h.set
  · intro k acc opened hread
    by_cases hkr : k = r
    · subst hkr
      rw [setReader_self] at hread
      exact hfinished acc opened hread
    · rw [setReader_of_ne hkr] at hread
      exact hr.finished k acc opened hread

theorem ReadOnly.step (hr : s.ReadOnly old) (hs : s.Written old) (h : Step s t) :
    t.ReadOnly old := by
  cases h with
  | created _ _ _ _ hidle hcreate =>
    exact hr.frame hs (.created _ _ _ _ hidle hcreate) rfl
  | wrote _ _ _ _ _ _ hwriter => exact hr.frame hs (.wrote _ _ _ _ _ _ hwriter) rfl
  | persisted _ _ _ _ hwriter => exact hr.frame hs (.persisted _ _ _ _ hwriter) rfl
  | unlinked _ _ _ _ hwriter => exact hr.frame hs (.unlinked _ _ _ _ hwriter) rfl
  | moved _ _ hbefore hafter hresult hholds =>
    exact hr.frame hs (.moved _ _ hbefore hafter hresult hholds) rfl
  | opened r ino hidle hentry =>
    refine hr.set (fun ino' acc opened hx => ?_) nofun
    obtain ⟨rfl, rfl, rfl⟩ := Reader.reading.inj hx
    refine ⟨⟨hs.dir.made _ _ hentry, rfl, fun suffix hname => ?_⟩, List.nil_prefix,
      version_of_file hs (by rw [file, Directory.lookup, hentry]; rfl)⟩
    exact nomatch hs.dir.apart _ _ _ hentry hname
  | read r ino n acc opened hreader =>
    obtain ⟨hopened, ⟨rest, hacc⟩, hversion⟩ := hr.reading r ino acc opened hreader
    refine hr.set (fun ino' acc' opened' hx => ?_) nofun
    obtain ⟨rfl, rfl, rfl⟩ := Reader.reading.inj hx
    refine ⟨hopened, ?_, hversion⟩
    rw [hopened.content, ← hacc, List.drop_left]
    exact (List.prefix_append_right_inj acc).mpr (List.take_prefix n rest)
  | finished r ino acc opened hreader hend =>
    obtain ⟨hopened, hacc, hversion⟩ := hr.reading r ino acc opened hreader
    refine hr.set nofun fun acc' opened' hx => ?_
    obtain ⟨rfl, rfl⟩ := Reader.finished.inj hx
    rw [hopened.content] at hend
    exact ⟨hacc.eq_of_length_le hend, hversion⟩

theorem readOnly (h : (atomicFile filename old).Reachable System.Any s) : s.ReadOnly old :=
  h.invariant .init fun _ _ _ hr hs _ hstep => hs.step (written hr) (step_cases hstep)

/-- A temporary file is there only as long as its call is under way, or when the call's process died
or could not remove it. -/
theorem temp_files (h : (atomicFile filename old).Reachable System.Any s) (suffix : String) :
    s.dir.entry (.temp suffix) ≠ none ↔ ∃ i, (s.writer i).Holds suffix :=
  (written h).temp suffix

/-- Two calls and a read that overlap, and one of the calls dies. -/
def overlapping : AtomicFile :=
  (atomicFile ['a'] (some [1, 2])).after System.Any (atomicFile ['a'] (some [1, 2])).init
    [.openFile 0, .create 1 "x" [3, 4], .read 0 1, .create 2 "y" [5], .write 1 1, .write 2 1,
      .write 1 1, .persist 1, .openFile 3, .crash 2, .read 0 8, .readEof 0]

theorem temp_files_overlapping : overlapping.dir.entry (.temp "y") ≠ none := by
  have hr : (atomicFile ['a'] (some [1, 2])).Reachable System.Any overlapping :=
    System.run_after (by decide +kernel)
  exact (temp_files hr "y").mpr ⟨2, rfl⟩

end AtomicFile
end RustExtensions.Shim
