import RustExtensions.Shim.Monitor

/-!
# Delivery of exit events

Every id is filed under its own topic and every subscriber has a channel of its
own, whatever calls were made. So a notification reaches each subscription once.
-/
namespace RustExtensions.Shim

open RustExtensions.KeyedMap (Map)

namespace Bus

variable {b b' : Bus} {build : Build} {topic t : Topic} {id : Int64} {rx : Nat} {e : ExitEvent}
variable {subject : Subject} {exitCode : Int32} {sub : Subscription} {s : Subscriber}

/-! ## Both builds send to the same channels -/

/-- The channels of the subscribers under a topic. -/
def listeners (b : Bus) (topic : Topic) : List Nat :=
  ((b.ids topic).filterMap fun id => b.monitor.subscribers.lookup id).map (·.tx)

def sendAll (b : Bus) (txs : List Nat) (e : ExitEvent) : Bus := txs.foldl (·.send · e) b

theorem asynchronous_notifyTopic : Asynchronous.notifyTopic b topic subject exitCode =
    b.sendAll (b.listeners topic) { subject, exitCode } := by
  unfold Asynchronous.notifyTopic listeners ids
  cases b.monitor.topicSubs.lookup topic with
  | none => rfl
  | some subs =>
    rw [sendAll, List.foldl_map]
    rfl

theorem synchronous_notifyTopic : Synchronous.notifyTopic b topic subject exitCode =
    b.sendAll (b.listeners topic) { subject, exitCode } := by
  unfold Synchronous.notifyTopic listeners ids
  cases b.monitor.topicSubs.lookup topic with
  | none => rfl
  | some subs =>
    rw [Option.elim_some, Option.getD_some, sendAll, List.foldl_map, List.foldl_filterMap]
    congr 1
    funext b' i
    cases b.monitor.subscribers.lookup i with
    | none => rfl
    | some sub => rfl

theorem notifyTopic_eq (build : Build) : build.notifyTopic b topic subject exitCode =
    b.sendAll (b.listeners topic) { subject, exitCode } := by
  cases build with
  | asynchronous => exact asynchronous_notifyTopic
  | synchronous => exact synchronous_notifyTopic

@[simp] theorem monitor_sendAll (b : Bus) (txs : List Nat) (e : ExitEvent) :
    (b.sendAll txs e).monitor = b.monitor := by
  induction txs generalizing b with
  | nil => rfl
  | cons tx txs ih => exact ih _

/-- A notification walks the list of its own topic, then the list of `All`. -/
theorem notifyTwice_eq (build : Build) :
    build.notifyTopic (build.notifyTopic b topic subject exitCode) .all subject exitCode =
      b.sendAll (b.listeners topic ++ b.listeners .all) { subject, exitCode } := by
  have hall (txs : List Nat) : (b.sendAll txs { subject, exitCode }).listeners .all =
      b.listeners .all := by
    rw [listeners, ids, monitor_sendAll]
    rfl
  rw [notifyTopic_eq, notifyTopic_eq, hall, sendAll, sendAll, sendAll, List.foldl_append]

@[simp] theorem length_sendAll (b : Bus) (txs : List Nat) (e : ExitEvent) :
    (b.sendAll txs e).channels.length = b.channels.length := by
  induction txs generalizing b with
  | nil => rfl
  | cons tx txs ih =>
    apply (ih _).trans
    exact List.length_modify _ _ _

theorem received_send (b : Bus) (tx : Nat) (hrx : rx < b.channels.length) :
    (b.send tx e).received rx = b.received rx ++ if tx = rx then [e] else [] := by
  unfold received send
  rw [List.getElem?_modify, List.getElem?_eq_getElem hrx]
  by_cases htx : tx = rx
  · simp [htx]
  · simp [htx]

theorem received_sendAll (b : Bus) (txs : List Nat) (hrx : rx < b.channels.length) :
    (b.sendAll txs e).received rx = b.received rx ++ List.replicate (txs.count rx) e := by
  induction txs generalizing b with
  | nil => exact (List.append_nil _).symm
  | cons tx txs ih =>
    have hlen : rx < (b.send tx e).channels.length :=
      hrx.trans_eq (List.length_modify _ _ _).symm
    have hcons : b.sendAll (tx :: txs) e = (b.send tx e).sendAll txs e := rfl
    rw [hcons, ih _ hlen, received_send b tx hrx, List.append_assoc, List.count_cons]
    by_cases htx : tx = rx
    · rw [if_pos htx, if_pos (beq_iff_eq.mpr htx), Nat.add_comm, List.replicate_add]
      rfl
    · rw [if_neg htx, if_neg (fun h => htx (beq_iff_eq.mp h))]
      rfl

/-! ## The two maps are in step -/

/-- The ids under a topic are, without duplicates, those of its subscribers. -/
structure Filed (b : Bus) : Prop where
  nodup : ∀ topic, (b.ids topic).Nodup
  mem : ∀ topic id, id ∈ b.ids topic ↔
    ∃ s, b.monitor.subscribers.lookup id = some s ∧ s.topic = topic

/-- Ids and channels are given out once. -/
structure Fresh (b : Bus) : Prop where
  id_lt : ∀ id s, b.monitor.subscribers.lookup id = some s → id.toInt < b.monitor.seqId.toInt
  tx_lt : ∀ id s, b.monitor.subscribers.lookup id = some s → s.tx < b.channels.length
  tx_inj : ∀ i j s s', b.monitor.subscribers.lookup i = some s →
    b.monitor.subscribers.lookup j = some s' → s.tx = s'.tx → i = j

theorem toInt_succ {id : Int64} (h : id ≠ Int64.maxValue) : (id + 1).toInt = id.toInt + 1 := by
  have hle := id.toInt_le
  have hne : id.toInt ≠ Int64.maxValue.toInt := fun he => h (Int64.toInt_inj.mp he)
  have hge := id.le_toInt
  rw [Int64.toInt_maxValue] at hle hne
  rw [Int64.toInt_add, Int64.toInt_one]
  exact Int.bmod_eq_of_le (by omega) (by omega)

/-- What `subscribe` does. -/
theorem subscribe_cases (h : b.subscribe topic = some (sub, b')) :
    sub = { id := b.monitor.seqId, rx := b.channels.length } ∧
    b'.monitor.seqId.toInt = b.monitor.seqId.toInt + 1 ∧
    b'.monitor.subscribers = b.monitor.subscribers.insert sub.id { topic, tx := sub.rx } ∧
    b'.monitor.topicSubs = b.monitor.topicSubs.insert topic (b.ids topic ++ [sub.id]) ∧
    b'.channels = b.channels ++ [[]] := by
  unfold subscribe at h
  dsimp only at h
  split at h
  · cases h
  · next hid =>
    obtain ⟨rfl, rfl⟩ := Prod.mk.inj (Option.some.inj h)
    exact ⟨rfl, toInt_succ hid, rfl, rfl, rfl⟩

theorem ids_subscribe (h : b.subscribe topic = some (sub, b')) (t : Topic) :
    b'.ids t = if t = topic then b.ids topic ++ [sub.id] else b.ids t := by
  obtain ⟨-, -, -, htopics, -⟩ := subscribe_cases h
  rw [ids, htopics, Map.lookup_insert_eq]
  split
  · rfl
  · rfl

theorem ids_unsubscribe (hs : b.monitor.subscribers.lookup id = some s) (t : Topic) :
    (b.unsubscribe id).ids t = if t = s.topic then (b.ids t).erase id else b.ids t := by
  unfold unsubscribe ids
  rw [hs]
  dsimp only
  cases hv : b.monitor.topicSubs.lookup s.topic with
  | none =>
    dsimp only
    split
    · next ht =>
      rw [ht, hv]
      rfl
    · rfl
  | some v =>
    dsimp only
    rw [Map.lookup_insert_eq]
    split
    · next ht =>
      rw [ht, hv]
      rfl
    · rfl

theorem lookup_unsubscribe (b : Bus) (id i : Int64) :
    (b.unsubscribe id).monitor.subscribers.lookup i =
      if i = id then none else b.monitor.subscribers.lookup i := by
  unfold unsubscribe
  cases hs : b.monitor.subscribers.lookup id with
  | none =>
    dsimp only
    split
    · next hi => rw [hi, hs]
    · rfl
  | some s =>
    dsimp only
    rw [Map.lookup_erase_eq]

@[simp] theorem channels_unsubscribe (b : Bus) (id : Int64) :
    (b.unsubscribe id).channels = b.channels := by
  unfold unsubscribe
  split
  · rfl
  · rfl

@[simp] theorem seqId_unsubscribe (b : Bus) (id : Int64) :
    (b.unsubscribe id).monitor.seqId = b.monitor.seqId := by
  unfold unsubscribe
  split
  · rfl
  · rfl

theorem Filed.subscribe (h : b.Filed) (hfresh : b.Fresh) (hsub : b.subscribe topic = some (sub, b')) :
    b'.Filed := by
  obtain ⟨rfl, -, hsubs, -, -⟩ := subscribe_cases hsub
  have hnew : ∀ t, b.monitor.seqId ∉ b.ids t := by
    intro t hmem
    obtain ⟨s, hs, -⟩ := (h.mem t _).mp hmem
    exact absurd (hfresh.id_lt _ s hs) (Int.lt_irrefl _)
  constructor
  · intro t
    rw [ids_subscribe hsub]
    split
    · refine List.nodup_append.mpr ⟨h.nodup topic, List.nodup_singleton _, ?_⟩
      rintro i hi j hj rfl
      obtain rfl := List.mem_singleton.mp hj
      exact hnew topic hi
    · exact h.nodup t
  · intro t i
    rw [ids_subscribe hsub, hsubs, Map.lookup_insert_eq]
    by_cases hi : i = b.monitor.seqId
    · subst hi
      rw [if_pos rfl]
      by_cases ht : t = topic
      · simp [ht]
      · simp only [if_neg ht, hnew t, false_iff]
        intro hexists
        obtain ⟨s, hs, rfl⟩ := hexists
        obtain rfl := Option.some.inj hs
        exact ht rfl
    · rw [if_neg hi, ← h.mem t i]
      by_cases ht : t = topic
      · simp [ht, hi]
      · rw [if_neg ht]

theorem Filed.unsubscribe (h : b.Filed) (id : Int64) : (b.unsubscribe id).Filed := by
  cases hs : b.monitor.subscribers.lookup id with
  | none =>
    have hsame : b.unsubscribe id = b := by
      unfold Bus.unsubscribe
      rw [hs]
    rwa [hsame]
  | some s =>
    constructor
    · intro t
      rw [ids_unsubscribe hs]
      split
      · exact (h.nodup t).erase id
      · exact h.nodup t
    · intro t i
      rw [ids_unsubscribe hs, lookup_unsubscribe]
      have hmem := h.mem t i
      by_cases hi : i = id
      · subst hi
        simp only [if_true, reduceCtorEq, false_and, exists_false, iff_false]
        split
        · exact fun hin => ((h.nodup t).mem_erase_iff.mp hin).1 rfl
        · next ht =>
          intro hin
          obtain ⟨s', hs', rfl⟩ := hmem.mp hin
          obtain rfl := Option.some.inj (hs'.symm.trans hs)
          exact ht rfl
      · rw [if_neg hi, ← hmem]
        split
        · exact List.mem_erase_of_ne hi
        · rfl

theorem Fresh.subscribe (h : b.Fresh) (hsub : b.subscribe topic = some (sub, b')) : b'.Fresh := by
  obtain ⟨rfl, hseq, hsubs, -, hchannels⟩ := subscribe_cases hsub
  have hlen : b'.channels.length = b.channels.length + 1 := by
    rw [hchannels, List.length_append, List.length_singleton]
  constructor
  · intro i s hs
    rw [hsubs, Map.lookup_insert_eq] at hs
    split at hs
    · next hi =>
      rw [hi, hseq]
      exact Int.lt_succ _
    · have := h.id_lt i s hs
      omega
  · intro i s hs
    rw [hsubs, Map.lookup_insert_eq] at hs
    split at hs
    · obtain rfl := Option.some.inj hs
      rw [hlen]
      exact Nat.lt_succ_self _
    · have := h.tx_lt i s hs
      omega
  · intro i j s s' hs hs' htx
    rw [hsubs, Map.lookup_insert_eq] at hs hs'
    split at hs <;> split at hs'
    · next hi hj => exact hi.trans hj.symm
    · obtain rfl := Option.some.inj hs
      have := h.tx_lt j s' hs'
      exact absurd htx (Nat.ne_of_gt this)
    · obtain rfl := Option.some.inj hs'
      have := h.tx_lt i s hs
      exact absurd htx (Nat.ne_of_lt this)
    · exact h.tx_inj i j s s' hs hs' htx

theorem Fresh.unsubscribe (h : b.Fresh) (id : Int64) : (b.unsubscribe id).Fresh := by
  have hold {i : Int64} {s : Subscriber}
      (hs : (b.unsubscribe id).monitor.subscribers.lookup i = some s) :
      b.monitor.subscribers.lookup i = some s := by
    rw [lookup_unsubscribe] at hs
    split at hs
    · cases hs
    · exact hs
  constructor
  · intro i s hs
    rw [seqId_unsubscribe]
    exact h.id_lt i s (hold hs)
  · intro i s hs
    rw [channels_unsubscribe]
    exact h.tx_lt i s (hold hs)
  · exact fun i j s s' hs hs' htx => h.tx_inj i j s s' (hold hs) (hold hs') htx

/-- What every call keeps. -/
structure Valid (b : Bus) : Prop where
  filed : b.Filed
  fresh : b.Fresh

theorem valid_init : ({} : Bus).Valid := by
  refine ⟨⟨fun _ => List.nodup_nil, fun _ _ => ?_⟩, ?_, ?_, ?_⟩
  · constructor
    · exact fun h => (nomatch h)
    · intro hexists
      obtain ⟨s, hs, -⟩ := hexists
      cases hs
  · exact fun _ _ h => (nomatch h)
  · exact fun _ _ h => (nomatch h)
  · exact fun _ _ _ _ h => (nomatch h)

theorem Valid.sendAll (h : b.Valid) (txs : List Nat) (e : ExitEvent) : (b.sendAll txs e).Valid := by
  refine ⟨⟨?_, ?_⟩, ?_, ?_, ?_⟩
  · intro t
    rw [ids, monitor_sendAll]
    exact h.filed.nodup t
  · intro t i
    rw [ids, monitor_sendAll]
    exact h.filed.mem t i
  · rw [monitor_sendAll]
    exact h.fresh.id_lt
  · rw [monitor_sendAll, length_sendAll]
    exact h.fresh.tx_lt
  · rw [monitor_sendAll]
    exact h.fresh.tx_inj

/-! ## What a call does -/

/-- A call subscribes, unsubscribes, or sends one event to the listeners it is for. -/
inductive Called (b : Bus) : MonitorCall → Bus → Prop
  | subscribed {topic : Topic} {sub : Subscription} {b' : Bus}
    (h : b.subscribe topic = some (sub, b')) : Called b (.subscribe topic) b'
  | unsubscribed {id : Int64} : Called b (.unsubscribe id) (b.unsubscribe id)
  | notified {c : MonitorCall} {e : ExitEvent} {own : Topic} (he : c.event = some e)
    (hown : ∀ t : Topic, t.matches e.subject ↔ t = own ∨ t = .all) (hall : own ≠ .all) :
    Called b c (b.sendAll (b.listeners own ++ b.listeners .all) e)

theorem call_cases {c : MonitorCall} (h : b.call build c = some b') : Called b c b' := by
  cases c with
  | subscribe topic =>
    obtain ⟨⟨sub, b''⟩, hsub, rfl⟩ := Option.map_eq_some_iff.mp h
    exact .subscribed hsub
  | unsubscribe id =>
    obtain rfl := Option.some.inj h
    exact .unsubscribed
  | notifyByPid pid exitCode =>
    obtain rfl := Option.some.inj h
    rw [notifyByPid, notifyTwice_eq]
    exact .notified rfl (fun t => by cases t <;> simp [Topic.matches]) (by simp)
  | notifyByExec cid execId exitCode =>
    obtain rfl := Option.some.inj h
    rw [notifyByExec, notifyTwice_eq]
    exact .notified rfl (fun t => by cases t <;> simp [Topic.matches]) (by simp)

def subscribes : MonitorCall → Bool
  | .subscribe _ => true
  | _ => false

theorem call_subscribe_of_eq_max (hmax : b.monitor.seqId = Int64.maxValue) :
    b.call build (.subscribe topic) = none := by
  show (b.subscribe topic).map (·.2) = none
  unfold subscribe
  dsimp only
  rw [if_pos hmax]
  rfl

theorem call_isSome (build : Build) {c : MonitorCall}
    (h : b.monitor.seqId ≠ Int64.maxValue ∨ subscribes c = false) :
    ∃ b', b.call build c = some b' := by
  cases c with
  | subscribe topic =>
    have hmax := h.resolve_right (by simp [subscribes])
    apply Option.isSome_iff_exists.mp
    show ((b.subscribe topic).map (·.2)).isSome
    unfold subscribe
    dsimp only
    rw [if_neg hmax]
    rfl
  | unsubscribe id => exact ⟨_, rfl⟩
  | notifyByPid pid exitCode => exact ⟨_, rfl⟩
  | notifyByExec cid execId exitCode => exact ⟨_, rfl⟩

theorem seqId_called {c : MonitorCall} (hc : Called b c b') :
    b'.monitor.seqId.toInt = b.monitor.seqId.toInt + if subscribes c then 1 else 0 := by
  cases hc with
  | subscribed hsub =>
    obtain ⟨-, hseq, -⟩ := subscribe_cases hsub
    exact hseq
  | unsubscribed => simp [subscribes]
  | @notified c e own he hown hall =>
    have hc : subscribes c = false := by
      cases c with
      | subscribe topic => cases he
      | _ => rfl
    simp [hc]

/-- The counter of the ids is the only thing that can stop a monitor. -/
theorem calls_isSome_iff {cs : List MonitorCall} :
    (b.calls build cs).isSome ↔
      b.monitor.seqId.toInt + cs.countP subscribes ≤ Int64.maxValue.toInt := by
  induction cs generalizing b with
  | nil =>
    have hle := b.monitor.seqId.toInt_le
    simp only [List.countP_nil, Int.natCast_zero, Int.add_zero]
    exact ⟨fun _ => hle, fun _ => rfl⟩
  | cons c cs ih =>
    rw [List.countP_cons]
    by_cases h : b.monitor.seqId ≠ Int64.maxValue ∨ subscribes c = false
    · obtain ⟨b₁, hc⟩ := call_isSome build h
      have hseq := seqId_called (call_cases hc)
      have hcalls : b.calls build (c :: cs) = b₁.calls build cs := by
        rw [calls, List.foldlM_cons, hc]
        rfl
      rw [hcalls, ih, hseq]
      split <;> omega
    · obtain ⟨hmax, hsub⟩ := not_or.mp h
      cases c with
      | subscribe topic =>
        have hmax := not_not.mp hmax
        rw [calls, List.foldlM_cons, call_subscribe_of_eq_max hmax, hmax]
        simp only [subscribes, if_true]
        constructor
        · exact fun h => nomatch h
        · omega
      | _ => exact absurd rfl hsub

theorem Valid.called {c : MonitorCall} (h : b.Valid) (hc : Called b c b') : b'.Valid := by
  cases hc with
  | subscribed hsub => exact ⟨h.filed.subscribe h.fresh hsub, h.fresh.subscribe hsub⟩
  | unsubscribed => exact ⟨h.filed.unsubscribe _, h.fresh.unsubscribe _⟩
  | notified he hown hall => exact h.sendAll _ _

theorem mem_listeners (h : b.Filed) :
    rx ∈ b.listeners topic ↔ ∃ id s, b.monitor.subscribers.lookup id = some s ∧
      s.topic = topic ∧ s.tx = rx := by
  unfold listeners
  simp only [List.mem_map, List.mem_filterMap]
  constructor
  · intro hexists
    obtain ⟨s, ⟨id, hid, hs⟩, rfl⟩ := hexists
    obtain ⟨s', hs', htopic⟩ := (h.mem topic id).mp hid
    obtain rfl := Option.some.inj (hs'.symm.trans hs)
    exact ⟨id, s', hs', htopic, rfl⟩
  · intro hexists
    obtain ⟨id, s, hs, htopic, rfl⟩ := hexists
    exact ⟨s, ⟨id, (h.mem topic id).mpr ⟨s, hs, htopic⟩, hs⟩, rfl⟩

theorem nodup_listeners (h : b.Valid) (topic : Topic) : (b.listeners topic).Nodup := by
  unfold listeners
  rw [List.map_filterMap]
  apply (h.filed.nodup topic).filterMap
  intro i j tx hi hj
  obtain ⟨s, hs, rfl⟩ := Option.map_eq_some_iff.mp hi
  obtain ⟨s', hs', htx⟩ := Option.map_eq_some_iff.mp hj
  exact h.fresh.tx_inj i j s s' hs hs' htx.symm

/-- A subscriber's channel stands in the lists of a notification once if the
event belongs to its topic, and else not at all. -/
theorem count_listeners (h : b.Valid) (hs : b.monitor.subscribers.lookup id = some s)
    {own : Topic} (hown : ∀ t : Topic, t.matches subject ↔ t = own ∨ t = .all)
    (hall : own ≠ .all) :
    (b.listeners own ++ b.listeners .all).count s.tx = if s.topic.matches subject then 1 else 0 := by
  have hmem (t : Topic) : s.tx ∈ b.listeners t ↔ s.topic = t := by
    rw [mem_listeners h.filed]
    constructor
    · intro hexists
      obtain ⟨i, s', hs', rfl, htx⟩ := hexists
      obtain rfl := h.fresh.tx_inj i id s' s hs' hs htx
      obtain rfl := Option.some.inj (hs'.symm.trans hs)
      rfl
    · exact fun ht => ⟨id, s, hs, ht, rfl⟩
  have hcount (t : Topic) : (b.listeners t).count s.tx = if s.topic = t then 1 else 0 := by
    rw [(nodup_listeners h t).count]
    simp only [hmem t]
  rw [List.count_append, hcount, hcount]
  by_cases h₁ : s.topic = own
  · have h₂ : s.topic ≠ .all := fun h₂ => hall (h₁.symm.trans h₂)
    rw [if_pos h₁, if_neg h₂, if_pos ((hown _).mpr (.inl h₁))]
  · by_cases h₂ : s.topic = .all
    · rw [if_neg h₁, if_pos h₂, if_pos ((hown _).mpr (.inr h₂))]
    · have hno : ¬s.topic.matches subject = true := fun hm => ((hown _).mp hm).elim h₁ h₂
      rw [if_neg h₁, if_neg h₂, if_neg hno]

/-! ## What a subscription receives -/

/-- No subscriber sends into the channel any more. -/
def Silent (b : Bus) (rx : Nat) : Prop :=
  rx < b.channels.length ∧ ∀ i s, b.monitor.subscribers.lookup i = some s → s.tx ≠ rx

theorem received_silent {c : MonitorCall} (h : b.Valid) (hrx : b.Silent rx) (hc : Called b c b') :
    b'.Silent rx ∧ b'.received rx = b.received rx := by
  obtain ⟨hlt, hsilent⟩ := hrx
  cases hc with
  | subscribed hsub =>
    obtain ⟨rfl, -, hsubs, -, hchannels⟩ := subscribe_cases hsub
    refine ⟨⟨?_, fun i s hs => ?_⟩, ?_⟩
    · rw [hchannels, List.length_append]
      omega
    · rw [hsubs, Map.lookup_insert_eq] at hs
      split at hs
      · obtain rfl := Option.some.inj hs
        exact Nat.ne_of_gt hlt
      · exact hsilent i s hs
    · rw [received, received, hchannels, List.getElem?_append_left hlt]
  | @unsubscribed id =>
    refine ⟨⟨by rwa [channels_unsubscribe], fun i s hs => ?_⟩, ?_⟩
    · rw [lookup_unsubscribe] at hs
      split at hs
      · cases hs
      · exact hsilent i s hs
    · rw [received, channels_unsubscribe]
      rfl
  | @notified c e own he hown hall =>
    refine ⟨⟨by rwa [length_sendAll], by rwa [monitor_sendAll]⟩, ?_⟩
    have hnone (t : Topic) : rx ∉ b.listeners t := by
      rw [mem_listeners h.filed]
      intro hexists
      obtain ⟨i, s, hs, -, htx⟩ := hexists
      exact hsilent i s hs htx
    rw [received_sendAll b _ hlt, List.count_append, List.count_eq_zero_of_not_mem (hnone _),
      List.count_eq_zero_of_not_mem (hnone _)]
    exact List.append_nil _

theorem received_calls_silent {cs : List MonitorCall} (h : b.Valid) (hrx : b.Silent rx)
    (hcs : b.calls build cs = some b') : b'.received rx = b.received rx := by
  induction cs generalizing b with
  | nil =>
    obtain rfl := Option.some.inj hcs
    rfl
  | cons c cs ih =>
    obtain ⟨b₁, hc, hcs⟩ := Option.bind_eq_some_iff.mp hcs
    have hc := call_cases hc
    obtain ⟨hrx₁, hreceived⟩ := received_silent h hrx hc
    exact (ih (h.called hc) hrx₁ hcs).trans hreceived

theorem silent_unsubscribe (h : b.Valid) (hs : b.monitor.subscribers.lookup id = some s) :
    (b.unsubscribe id).Silent s.tx := by
  refine ⟨?_, fun i s' hs' htx => ?_⟩
  · rw [channels_unsubscribe]
    exact h.fresh.tx_lt id s hs
  · rw [lookup_unsubscribe] at hs'
    split at hs'
    · cases hs'
    · next hne => exact hne (h.fresh.tx_inj i id s' s hs' hs htx)

/-- A call other than its own `unsubscribe` keeps a subscriber. -/
theorem lookup_called {c : MonitorCall} (h : b.Valid)
    (hs : b.monitor.subscribers.lookup id = some s) (hc : Called b c b')
    (hne : c ≠ .unsubscribe id) : b'.monitor.subscribers.lookup id = some s := by
  cases hc with
  | subscribed hsub =>
    obtain ⟨rfl, -, hsubs, -, -⟩ := subscribe_cases hsub
    rw [hsubs, Map.lookup_insert_eq, if_neg, hs]
    intro heq
    subst heq
    exact absurd (h.fresh.id_lt _ s hs) (Int.lt_irrefl _)
  | @unsubscribed i =>
    rw [lookup_unsubscribe, if_neg, hs]
    intro heq
    subst heq
    exact hne rfl
  | notified he hown hall =>
    rw [monitor_sendAll]
    exact hs

/-- One call adds the event that it notifies, if that belongs to the topic. -/
theorem received_called {c : MonitorCall} (h : b.Valid)
    (hs : b.monitor.subscribers.lookup id = some s) (hc : Called b c b') :
    b'.received s.tx = b.received s.tx ++ c.event.toList.filter (s.topic.matches ·.subject) := by
  have hlt := h.fresh.tx_lt id s hs
  cases hc with
  | subscribed hsub =>
    obtain ⟨rfl, -, -, -, hchannels⟩ := subscribe_cases hsub
    rw [received, received, hchannels, List.getElem?_append_left hlt]
    exact (List.append_nil _).symm
  | unsubscribed =>
    rw [received, channels_unsubscribe]
    exact (List.append_nil _).symm
  | @notified c e own he hown hall =>
    rw [received_sendAll b _ hlt, count_listeners h hs hown hall, he]
    by_cases hm : s.topic.matches e.subject
    · simp [hm]
    · simp [hm]

/-- From a state in which the subscription stands, it receives what is due to it. -/
theorem received_calls {cs : List MonitorCall} (h : b.Valid)
    (hs : b.monitor.subscribers.lookup id = some s) (hcs : b.calls build cs = some b') :
    b'.received s.tx = b.received s.tx ++ due s.topic id cs := by
  induction cs generalizing b with
  | nil =>
    obtain rfl := Option.some.inj hcs
    exact (List.append_nil _).symm
  | cons c cs ih =>
    obtain ⟨b₁, hc, hcs⟩ := Option.bind_eq_some_iff.mp hcs
    have hcalled := call_cases hc
    by_cases hne : c = .unsubscribe id
    · subst hne
      obtain rfl := Option.some.inj hc
      have hsilent := received_calls_silent (h.called hcalled) (silent_unsubscribe h hs) hcs
      have hdue : due s.topic id (.unsubscribe id :: cs) = [] := by simp [due]
      rw [hsilent, hdue, received, channels_unsubscribe]
      exact (List.append_nil _).symm
    · have hdue : due s.topic id (c :: cs) =
          c.event.toList.filter (s.topic.matches ·.subject) ++ due s.topic id cs := by
        unfold due
        rw [List.takeWhile_cons_of_pos (by simp [hne])]
        cases he : c.event with
        | none => rw [List.filterMap_cons_none he]; rfl
        | some e =>
          rw [List.filterMap_cons_some he, ← List.singleton_append, List.filter_append]
          rfl
      rw [ih (h.called hcalled) (lookup_called h hs hcalled hne) hcs, received_called h hs hcalled,
        List.append_assoc, hdue]

theorem valid_calls {cs : List MonitorCall} (h : b.Valid) (hcs : b.calls build cs = some b') :
    b'.Valid := by
  induction cs generalizing b with
  | nil =>
    obtain rfl := Option.some.inj hcs
    exact h
  | cons c cs ih =>
    obtain ⟨b₁, hc, hcs⟩ := Option.bind_eq_some_iff.mp hcs
    exact ih (h.called (call_cases hc)) hcs

theorem call_build (build build' : Build) (b : Bus) (c : MonitorCall) :
    b.call build c = b.call build' c := by
  cases c with
  | subscribe topic => rfl
  | unsubscribe id => rfl
  | notifyByPid pid exitCode =>
    rw [call, call, notifyByPid, notifyByPid, notifyTwice_eq, notifyTwice_eq]
  | notifyByExec cid execId exitCode =>
    rw [call, call, notifyByExec, notifyByExec, notifyTwice_eq, notifyTwice_eq]

/-- After any sequence of calls the maps are in step, every subscription made on
the way has received what is due to it, and the other build did the same. -/
theorem exits_delivered (build : Build) (cs : List MonitorCall) (b : Bus)
    (h : calls build {} cs = some b) :
    b.Filed ∧
    (∀ before topic after b₀ sub b₁, cs = before ++ .subscribe topic :: after →
      calls build {} before = some b₀ → b₀.subscribe topic = some (sub, b₁) →
      b.received sub.rx = due topic sub.id after) ∧
    ∀ build', calls build' {} cs = some b := by
  refine ⟨(valid_calls valid_init h).filed, ?_, fun build' => ?_⟩
  · intro before topic after b₀ sub b₁ hcs h₀ hsub
    have hvalid := valid_calls valid_init h₀
    have hcalls : b₁.calls build after = some b := by
      rw [hcs, calls, List.foldlM_append] at h
      obtain ⟨b', hb', hrest⟩ := Option.bind_eq_some_iff.mp h
      obtain rfl := Option.some.inj (h₀.symm.trans hb')
      obtain ⟨b'', hb'', hafter⟩ := Option.bind_eq_some_iff.mp hrest
      rw [call, hsub] at hb''
      obtain rfl := Option.some.inj hb''
      exact hafter
    have hvalid₁ := hvalid.called (.subscribed hsub)
    obtain ⟨rfl, -, hsubs, -, hchannels⟩ := subscribe_cases hsub
    have hs : b₁.monitor.subscribers.lookup b₀.monitor.seqId =
        some { topic, tx := b₀.channels.length } := by
      rw [hsubs]
      exact AList.lookup_insert _
    have hempty : b₁.received b₀.channels.length = [] := by
      rw [received, hchannels, List.getElem?_append_right (Nat.le_refl _), Nat.sub_self]
      rfl
    exact (received_calls hvalid₁ hs hcalls).trans (by rw [hempty, List.nil_append])
  · rw [← h, calls, calls]
    congr 1
    funext b c
    exact call_build build' build b c

/-- One subscription that ends between two exits. -/
def oneExit : List MonitorCall :=
  [.subscribe .pid, .notifyByPid 13 128, .unsubscribe 0, .notifyByPid 14 0]

theorem exits_delivered_one : ∃ b, calls .asynchronous {} oneExit = some b ∧
    b.received 0 = [{ subject := .pid 13, exitCode := 128 }] := by
  have hsome : (calls .asynchronous {} oneExit).isSome := by decide +kernel
  obtain ⟨b, hb⟩ := Option.isSome_iff_exists.mp hsome
  obtain ⟨-, hreceived, -⟩ := exits_delivered .asynchronous oneExit b hb
  refine ⟨b, hb, ?_⟩
  have hdue : due .pid 0 oneExit.tail = [{ subject := .pid 13, exitCode := 128 }] := by
    decide +kernel
  rw [← hdue]
  exact hreceived [] .pid oneExit.tail {} { id := 0, rx := 0 } _ rfl rfl rfl

end Bus
end RustExtensions.Shim
