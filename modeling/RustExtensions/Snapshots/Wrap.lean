import RustExtensions.Lib.Batches
import RustExtensions.Lib.KeyedMap

/-!
# The listing of a snapshotter

`Wrapper::list` reads a walk over the snapshots and answers with a stream of
responses of at most a hundred entries. The clock types, the errors of a
snapshotter and the status they become are parameters.
-/
namespace RustExtensions.Snapshots

open KeyedMap

inductive Kind where
  | unknown | view | active | committed
deriving DecidableEq, Repr

/-- `From<Kind> for i32`. -/
def Kind.toI32 : Kind → Int32
  | .unknown => 0
  | .view => 1
  | .active => 2
  | .committed => 3

structure Info (SystemTime : Type) where
  kind : Kind
  name : String
  parent : String
  labels : Map String String
  createdAt : SystemTime
  updatedAt : SystemTime

namespace Grpc

/-- The message of the service. -/
structure Info (Timestamp : Type) where
  name : String
  parent : String
  kind : Int32
  createdAt : Option Timestamp
  updatedAt : Option Timestamp
  labels : Map String String

structure ListSnapshotsResponse (Timestamp : Type) where
  info : List (Info Timestamp)

end Grpc

section
variable {SystemTime Timestamp E Status : Type}
variable (timestamp : SystemTime → Timestamp) (status : E → Status)

/-- `From<Info> for grpc::Info`. -/
def Info.toGrpc (info : Info SystemTime) : Grpc.Info Timestamp where
  name := info.name
  parent := info.parent
  kind := info.kind.toI32
  createdAt := some (timestamp info.createdAt)
  updatedAt := some (timestamp info.updatedAt)
  labels := info.labels

/-- The loop over the walk, with the entries that were not sent yet. -/
def listLoop (infos : List (Grpc.Info Timestamp)) :
    List (Except E (Info SystemTime)) →
      List (Except Status (Grpc.ListSnapshotsResponse Timestamp))
  | [] => if infos.isEmpty then [] else [.ok { info := infos }]
  | .error e :: _ => [.error (status e)]
  | .ok info :: walkStream =>
    let infos := infos ++ [info.toGrpc timestamp]
    if infos.length ≥ 100 then .ok { info := infos } :: listLoop [] walkStream
    else listLoop infos walkStream

/-- `Wrapper::list`: the stream of responses to what the snapshotter's `list` gives. -/
def list (walk : Except E (List (Except E (Info SystemTime)))) :
    List (Except Status (Grpc.ListSnapshotsResponse Timestamp)) :=
  match walk with
  | .error e => [.error (status e)]
  | .ok walkStream => listLoop timestamp status [] walkStream

open Batches

/-- A batch as it is sent. -/
def response (infos : List (Grpc.Info Timestamp)) :
    Except Status (Grpc.ListSnapshotsResponse Timestamp) := .ok { info := infos }

variable (infos : List (Info SystemTime)) (batch : List (Grpc.Info Timestamp))

/-- As long as the walk goes well the loop fills batches. -/
theorem listLoop_append (walk : List (Except E (Info SystemTime))) :
    listLoop timestamp status batch (infos.map .ok ++ walk) =
      (fill 100 batch (infos.map (Info.toGrpc timestamp))).1.map response ++
        listLoop timestamp status (fill 100 batch (infos.map (Info.toGrpc timestamp))).2 walk := by
  induction infos generalizing batch with
  | nil => simp [fill]
  | cons info infos ih =>
    simp only [List.map_cons, List.cons_append, listLoop, fill]
    split
    · rw [ih []]
      rfl
    · exact ih _

/-- A walk that ends well. -/
theorem listLoop_ok :
    listLoop timestamp status batch (infos.map (.ok : _ → Except E _)) =
      (close (fill 100 batch (infos.map (Info.toGrpc timestamp)))).map response := by
  have h := listLoop_append timestamp status infos batch []
  rw [List.append_nil] at h
  rw [h, listLoop, close]
  split
  · rw [List.append_nil]
  · rw [List.map_append]
    rfl

/-- A walk that fails: what did not fill a batch is not sent. -/
theorem listLoop_error (e : E) (walk : List (Except E (Info SystemTime))) :
    listLoop timestamp status batch (infos.map .ok ++ .error e :: walk) =
      (fill 100 batch (infos.map (Info.toGrpc timestamp))).1.map response ++
        [.error (status e)] := by
  rw [listLoop_append, listLoop]

/-- What has been sent does not depend on what the walk gives later, so it holds of walks
without an end as well. -/
theorem sent_prefix (walk : List (Except E (Info SystemTime))) :
    (fill 100 [] (infos.map (Info.toGrpc timestamp))).1.map response <+:
      list timestamp status (.ok (infos.map .ok ++ walk)) :=
  ⟨_, (listLoop_append timestamp status infos [] walk).symm⟩

/-- A listing loses and reorders nothing. A failure costs no more than the batch that was open. -/
theorem list_in_order :
    (∀ infos : List (Info SystemTime), ∃ batches : List (List (Grpc.Info Timestamp)),
      list timestamp status (.ok (infos.map .ok)) = batches.map response ∧
      batches.flatten = infos.map (Info.toGrpc timestamp) ∧
      (∀ batch ∈ batches, 0 < batch.length ∧ batch.length ≤ 100) ∧
      ∀ batch ∈ batches.dropLast, batch.length = 100) ∧
    ∀ (infos : List (Info SystemTime)) (e : E) (walk : List (Except E (Info SystemTime))),
      list timestamp status (.ok (infos.map .ok ++ .error e :: walk)) =
        list timestamp status (.ok ((infos.take (infos.length / 100 * 100)).map .ok)) ++
          [.error (status e)] := by
  refine ⟨fun infos => ?_, fun infos e walk => ?_⟩
  · have hbatched := batched_close (n := 100) (by decide) (infos.map (Info.toGrpc timestamp))
    refine ⟨_, listLoop_ok timestamp status infos [], flatten_close _ _, fun batch hb => ?_,
      hbatched.full⟩
    exact ⟨List.length_pos_of_ne_nil (hbatched.nonempty batch hb), hbatched.bounded batch hb⟩
  · have htake := fill_take (n := 100) (by decide) (infos.map (Info.toGrpc timestamp))
    rw [List.length_map, ← List.map_take] at htake
    simp only [list]
    rw [listLoop_error, listLoop_ok, htake]
    rfl

end

end RustExtensions.Snapshots
