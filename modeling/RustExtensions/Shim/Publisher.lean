import RustExtensions.Lib.Channel
import RustExtensions.Lib.Transition
import RustExtensions.Shim.Values

/-!
# The event publisher

Events on their way to containerd: calls of `publish`, the bounded queue, the
loop that forwards one event at a time, and the tasks that put an event back
into the queue some time after its forward failed. Times are in milliseconds.
-/
namespace RustExtensions.Shim

open RustExtensions.Transition
open RustExtensions.BoundedChannel

def queueSize : Nat := 1024

def maxRequeue : Nat := 5

def sendTimeout : Nat := 3000

structure Envelope where
  topic : String
  ns : String
  timestamp : Timestamp
  event : Any
  deriving DecidableEq

/-- `name` tells the calls of `publish` apart; the code has no such field. -/
structure Item where
  name : Nat
  ev : Envelope
  count : Nat
  deriving DecidableEq

/-- `closed` is `RemoteClosed` or `LocalClosed`, `failed` any other error. -/
inductive ForwardResult where
  | ok | closed | failed

/-- Where `process_queue` stands. While it reconnects it holds the copy with the new count. -/
inductive Loop where
  | receiving
  | forwarding (item : Item)
  | reconnecting (item : Item)

inductive Reason where
  | requeuedTooOften
  | queueFull (since : Option Nat) (time : Nat)

/-- `fullSince` is when the queue became full, if it is full. Nothing reads it, nor what was
published, what forwards failed and succeeded, and what was dropped. -/
structure Publisher where
  channel : Channel Item := {}
  sleeping : List (Item × Nat) := []
  loop : Loop := .receiving
  now : Nat := 0
  fullSince : Option Nat := none
  published : List Envelope := []
  failed : List Nat := []
  forwarded : List Nat := []
  dropped : List (Item × Reason) := []

inductive PublisherAction where
  | publish (ev : Envelope)
  | recv
  | forward (result : ForwardResult)
  | connect
  | wake (item : Item) (time : Nat)
  | deliver (item : Item)
  | timeout (w : Waiting Item)
  | tick (d : Nat)

namespace Publisher

/-- The task that sleeps for `count` seconds before it sends. -/
def requeue (p : Publisher) (item : Item) : Publisher :=
  { p with sleeping := p.sleeping ++ [(item, p.now + item.count * 1000)] }

def send (p : Publisher) (item : Item) : Publisher :=
  { p with channel := p.channel.send queueSize item p.now }

/-- One round of the loop up to the call of `forward`. -/
def handle (p : Publisher) (item : Item) : Publisher :=
  if item.count > maxRequeue then { p with dropped := p.dropped ++ [(item, .requeuedTooOften)] }
  else { p with loop := .forwarding item }

/-- The rest of the round. -/
def handleResult (p : Publisher) (item : Item) (result : ForwardResult) : Publisher :=
  let newItem := { item with count := item.count + 1 }
  match result with
  | .ok => { p with loop := .receiving, forwarded := p.forwarded ++ [item.name] }
  | .closed => { p with loop := .reconnecting newItem, failed := p.failed ++ [item.name] }
  | .failed =>
    { p with loop := .receiving, failed := p.failed ++ [item.name] : Publisher }.requeue newItem

def move (p : Publisher) : PublisherAction → Option Publisher
  | .publish ev =>
    some ({ p with published := p.published ++ [ev] : Publisher }.send
      { name := p.published.length, ev, count := 0 })
  | .recv =>
    match p.loop with
    | .receiving => p.channel.recv.map fun (item, channel) =>
      { p with channel : Publisher }.handle item
    | _ => none
  | .forward result =>
    match p.loop with
    | .forwarding item => some (p.handleResult item result)
    | _ => none
  | .connect =>
    match p.loop with
    | .reconnecting item => some ({ p with loop := .receiving : Publisher }.requeue item)
    | _ => none
  | .wake item time =>
    if (item, time) ∈ p.sleeping ∧ time ≤ p.now then
      some ({ p with sleeping := p.sleeping.erase (item, time) : Publisher }.send item)
    else none
  | .deliver item => (p.channel.deliver item).map fun channel => { p with channel }
  | .timeout w =>
    if w.since + sendTimeout ≤ p.now then
      (p.channel.giveUp w).map fun channel =>
        { p with channel, dropped := p.dropped ++ [(w.item, .queueFull p.fullSince p.now)] }
    else none
  | .tick d => some { p with now := p.now + d }

def observe (p : Publisher) : Publisher :=
  { p with fullSince := if p.channel.Full queueSize then some (p.fullSince.getD p.now) else none }

def step (p : Publisher) (a : PublisherAction) : Option Publisher := (p.move a).map observe

end Publisher

def publisher : System Publisher PublisherAction where
  init := {}
  step := Publisher.step

end RustExtensions.Shim
