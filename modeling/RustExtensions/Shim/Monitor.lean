import RustExtensions.Lib.KeyedMap
import RustExtensions.Shim.Values

/-!
# The exit monitor

`Monitor` of the asynchronous and of the synchronous build, with the channels of
its subscriptions. A channel is the list of the events sent into it.
-/
namespace RustExtensions.Shim

open RustExtensions.KeyedMap (Map)

/-- The crate with its feature `async`, and without it. -/
inductive Build where
  | asynchronous | synchronous
  deriving DecidableEq

inductive Topic where
  | pid | exec | all
  deriving DecidableEq

/-- `tx` names a channel. -/
structure Subscriber where
  topic : Topic
  tx : Nat
  deriving DecidableEq

structure Subscription where
  id : Int64
  rx : Nat
  deriving DecidableEq

structure Monitor where
  seqId : Int64 := 0
  subscribers : Map Int64 Subscriber := ∅
  topicSubs : Map Topic (List Int64) := ∅

/-- A monitor and the channels it made, each under its index. -/
structure Bus where
  monitor : Monitor := {}
  channels : List (List ExitEvent) := []

namespace Bus

/-- `tx.send`. The receivers of these channels are never dropped, so it does not fail. -/
def send (b : Bus) (tx : Nat) (e : ExitEvent) : Bus :=
  { b with channels := b.channels.modify tx (· ++ [e]) }

/-- What was sent into a channel. -/
def received (b : Bus) (rx : Nat) : List ExitEvent := b.channels[rx]?.getD []

/-- The ids filed under a topic. -/
def ids (b : Bus) (topic : Topic) : List Int64 := (b.monitor.topicSubs.lookup topic).getD []

/-- `none` where the counter of the ids overflows. -/
def subscribe (b : Bus) (topic : Topic) : Option (Subscription × Bus) :=
  let tx := b.channels.length
  let id := b.monitor.seqId
  if id = Int64.maxValue then none
  else some ({ id, rx := tx }, {
    monitor := {
      seqId := id + 1
      subscribers := b.monitor.subscribers.insert id { topic, tx }
      topicSubs := b.monitor.topicSubs.insert topic (b.ids topic ++ [id]) }
    channels := b.channels ++ [[]] })

def unsubscribe (b : Bus) (id : Int64) : Bus :=
  match b.monitor.subscribers.lookup id with
  | none => b
  | some s => { b with monitor := { b.monitor with
      subscribers := b.monitor.subscribers.erase id
      topicSubs := match b.monitor.topicSubs.lookup s.topic with
        | some v => b.monitor.topicSubs.insert s.topic (v.erase id)
        | none => b.monitor.topicSubs } }

end Bus

/-- The asynchronous `notify_topic`: it collects the results to log them afterwards. -/
def Asynchronous.notifyTopic (b : Bus) (topic : Topic) (subject : Subject) (exitCode : Int32) :
    Bus :=
  match b.monitor.topicSubs.lookup topic with
  | none => b
  | some subs =>
    let subscribers := subs.filterMap fun x => b.monitor.subscribers.lookup x
    subscribers.foldl (fun b sub => b.send sub.tx { subject, exitCode }) b

/-- The synchronous `notify_topic`: it looks up one subscriber after the other. -/
def Synchronous.notifyTopic (b : Bus) (topic : Topic) (subject : Subject) (exitCode : Int32) :
    Bus :=
  (b.monitor.topicSubs.lookup topic).elim b fun subs =>
    subs.foldl (fun b' i =>
      match b.monitor.subscribers.lookup i with
      | some sub => b'.send sub.tx { subject, exitCode }
      | none => b') b

def Build.notifyTopic : Build → Bus → Topic → Subject → Int32 → Bus
  | .asynchronous => Asynchronous.notifyTopic
  | .synchronous => Synchronous.notifyTopic

namespace Bus

def notifyByPid (build : Build) (b : Bus) (pid exitCode : Int32) : Bus :=
  let subject := .pid pid
  let b := build.notifyTopic b .pid subject exitCode
  build.notifyTopic b .all subject exitCode

def notifyByExec (build : Build) (b : Bus) (cid execId : String) (exitCode : Int32) : Bus :=
  let subject := .exec cid execId
  let b := build.notifyTopic b .exec subject exitCode
  build.notifyTopic b .all subject exitCode

end Bus

/-- A call on a monitor. -/
inductive MonitorCall where
  | subscribe (topic : Topic)
  | unsubscribe (id : Int64)
  | notifyByPid (pid exitCode : Int32)
  | notifyByExec (cid execId : String) (exitCode : Int32)
  deriving DecidableEq

namespace Bus

def call (build : Build) (b : Bus) : MonitorCall → Option Bus
  | .subscribe topic => (b.subscribe topic).map (·.2)
  | .unsubscribe id => some (b.unsubscribe id)
  | .notifyByPid pid exitCode => some (b.notifyByPid build pid exitCode)
  | .notifyByExec cid execId exitCode => some (b.notifyByExec build cid execId exitCode)

/-- A sequence of calls. -/
def calls (build : Build) (b : Bus) (cs : List MonitorCall) : Option Bus :=
  cs.foldlM (call build) b

end Bus

/-! ## What a subscription is for -/

/-- The events that belong to a topic. -/
def Topic.matches : Topic → Subject → Bool
  | .pid, .pid _ | .exec, .exec _ _ | .all, _ => true
  | .pid, .exec _ _ | .exec, .pid _ => false

/-- The event that a call notifies. -/
def MonitorCall.event : MonitorCall → Option ExitEvent
  | .subscribe _ | .unsubscribe _ => none
  | .notifyByPid pid exitCode => some { subject := .pid pid, exitCode }
  | .notifyByExec cid execId exitCode => some { subject := .exec cid execId, exitCode }

/-- The events notified before the first `unsubscribe` of `id`, as far as they belong to `topic`. -/
def due (topic : Topic) (id : Int64) (cs : List MonitorCall) : List ExitEvent :=
  ((cs.takeWhile (· ≠ .unsubscribe id)).filterMap (·.event)).filter (topic.matches ·.subject)

end RustExtensions.Shim
