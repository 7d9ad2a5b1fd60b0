/- When a call of the broker waits for a guard that it holds itself. -/

import Zumic.Pubsub.BrokerCalls
import Zumic.Pubsub.Conservation

namespace Zumic.Pubsub

open Lib Lib.Guards Lib.Utf8

section

variable {sharding : Table → Sharding} {held : List (Guard Shard)} {P : Broker → Prop}

/-- No guard of a table is held. -/
def Clear (table : Table) (held : List (Guard Shard)) : Prop :=
  ∀ g ∈ held, g.lock.table ≠ table

theorem clear_nil (table : Table) : Clear table [] := by
  intro g member
  cases member

theorem Clear.cons {table other : Table} {key : Str} {mode : Mode} (clear : Clear table held)
    (apart : other ≠ table) : Clear table (guardOf sharding other key mode :: held) := by
  intro g member
  rcases List.mem_cons.mp member with rfl | member
  · exact apart
  · exact clear g member

theorem Clear.granted {g : Guard Shard} (clear : Clear g.lock.table held) : Granted g held := by
  rintro h member ⟨same, -⟩
  exact clear h member (congrArg Shard.table same).symm

theorem Clear.shards {table other : Table} {lock : Shard} {mode : Mode} (clear : Clear table held)
    (apart : other ≠ table) (member : lock ∈ shards sharding other) :
    Clear table (⟨lock, mode⟩ :: held) := by
  obtain ⟨number, -, rfl⟩ := List.mem_map.mp member
  intro g here
  rcases List.mem_cons.mp here with rfl | here
  · exact apart
  · exact clear g here

theorem granted_shards {table : Table} {lock : Shard} {mode : Mode} (clear : Clear table held)
    (member : lock ∈ shards sharding table) : Granted ⟨lock, mode⟩ held := by
  obtain ⟨number, -, rfl⟩ := List.mem_map.mp member
  exact Clear.granted clear

theorem triple_internChannel (clear : Clear .interned held) (channel : Str)
    (kept : ∀ b names, P b → P { b with interned := names }) :
    Triple held P (internChannel sharding channel) fun key b => key = channel ∧ P b := by
  refine Triple.hold clear.granted (Triple.act _ fun b start => ⟨rfl, ?_⟩)
  by_cases known : channel ∈ b.interned
  · rw [if_pos known]
    exact start
  · rw [if_neg known]
    exact kept b _ start

theorem triple_insertStats (clear : Clear .stats held) (key : Str) (stats : ChannelStats)
    (kept : ∀ b table, P b → P { b with stats := table }) :
    Triple held P (insertStats sharding key stats) fun _ => P :=
  Triple.hold clear.granted (Triple.modify _ fun b start => kept b _ start)

theorem triple_updateStats (clear : Clear .stats held) (key : Str)
    (change : Broker → ChannelStats → ChannelStats)
    (kept : ∀ b table, P b → P { b with stats := table }) :
    Triple held P (updateStats sharding key change) fun _ => P := by
  refine Triple.borrow clear.granted (fun stats => ?_) ?_
  · exact Triple.modify _ fun b start => kept b _ start.1
  · exact (Triple.skip ()).consequence (fun b start => start.1) fun _ b done => done

theorem triple_removeStats (clear : Clear .stats held) (key : Str)
    (kept : ∀ b table, P b → P { b with stats := table }) :
    Triple held P (removeStats sharding key) fun _ => P :=
  Triple.hold clear.granted (Triple.act _ fun b start => kept b _ start)

theorem triple_removeChannel (clear : Clear .channels held) (key : Str)
    (kept : ∀ b table, P b → P { b with channels := table }) :
    Triple held P (removeChannel sharding key) fun _ => P :=
  Triple.hold clear.granted (Triple.act _ fun b start => kept b _ start)

theorem triple_countChannels (clear : Clear .channels held) :
    Triple held P (countChannels sharding) fun _ => P := by
  refine Triple.bind (Triple.each (fun lock member => granted_shards clear member) ?_) ?_
  · exact fun lock member => Triple.read _ fun b start => start
  · exact fun counts => Triple.skip _

theorem triple_countReceivers (clear : Clear .channels held) :
    Triple held P (countReceivers sharding) fun _ => P := by
  refine Triple.bind (Triple.sweep (fun lock member => granted_shards clear member) ?_) ?_
  · exact fun lock member => Triple.read _ fun b start => start
  · exact fun counts => Triple.skip _

end

section

variable {Json : Type} {serde : SerdeJson Json} {gzip : Gzip} {config : BrokerConfig}
  {sharding : Table → Sharding}

/-- The subscription makes a channel of a capacity that is refused. -/
def Refused (config : BrokerConfig) (b : Broker) (channel : Str) (options : SubscriptionOptions) :
    Prop :=
  Assoc.get b.channels channel = none ∧
    refusesCapacity (options.bufferSize.getD config.defaultChannelCapacity) = true

/-- The channel is in the table, and all its subscribers are gone. -/
def Stranded (b : Broker) (channel : Str) : Prop :=
  ∃ sender, Assoc.get b.channels channel = some sender ∧ b.receiverCount sender = 0

theorem triple_entryChannel (key : Str) (options : SubscriptionOptions) (now : Nat) :
    Triple [] (fun b => ¬ Refused config b key options)
      (entryChannel config sharding key options now) fun _ _ => True := by
  have looked : Triple [guardOf sharding .channels key .write]
      (fun b => ¬ Refused config b key options) (read fun b => Assoc.get b.channels key)
      fun known b => known = Assoc.get b.channels key ∧ ¬ Refused config b key options :=
    Triple.read _ fun b accepted => ⟨rfl, accepted⟩
  refine Triple.hold (granted_nil _) (looked.bind fun known => ?_)
  cases known with
  | some sender => exact (Triple.skip sender).consequence (fun _ _ => trivial) fun _ _ _ => trivial
  | none =>
      cases refused : refusesCapacity (options.bufferSize.getD config.defaultChannelCapacity) with
      | true =>
          intro b start
          exact absurd ⟨start.1.symm, refused⟩ start.2
      | false =>
          have clear : Clear .stats [guardOf sharding .channels key .write] :=
            (clear_nil .stats).cons (by decide)
          refine Triple.bind (Q := fun _ _ => True) ?_ fun _ => Triple.act _ fun _ _ => trivial
          exact (triple_insertStats (P := fun _ => True) clear key _ fun _ _ _ => trivial).consequence
            (fun _ _ => trivial) fun _ _ _ => trivial

theorem entryChannel_refused {b : Broker} {key : Str} {options : SubscriptionOptions} (now : Nat)
    (refused : Refused config b key options) :
    entryChannel config sharding key options now [] b = .panicked b := by
  have looked : (read fun b : Broker => Assoc.get b.channels key)
      [guardOf sharding .channels key .write] b =
        .done (Assoc.get b.channels key) b := rfl
  unfold entryChannel
  rw [hold_granted (granted_nil _), bind_done looked, refused.1]
  simp only [refused.2, if_true]
  rfl

theorem triple_addReceiver (key : Str) (sender : Nat) :
    Triple [] (fun _ => True) (addReceiver config sharding key sender) fun _ _ => True := by
  have counted : Triple ([] : List (Guard Shard)) (fun _ => True)
      (read fun b : Broker => b.receiverCount sender) fun _ _ => True :=
    Triple.read _ fun _ _ => trivial
  refine counted.bind fun currentSubs => ?_
  by_cases full : config.maxSubscribersPerChannel.any (fun maxSubs => maxSubs ≤ currentSubs) = true
  · rw [if_pos full]
    exact Triple.skip _
  · rw [if_neg full]
    have added : Triple ([] : List (Guard Shard)) (fun _ => True)
        (modify fun b : Broker => { b with receivers := sender :: b.receivers }) fun _ _ => True :=
      Triple.modify _ fun _ _ => trivial
    refine added.bind fun _ => ?_
    have updated := @triple_updateStats sharding [] (fun _ => True) (clear_nil .stats) key
      (fun b stats => { stats with subscriberCount := b.receiverCount sender })
      fun _ _ _ => trivial
    exact updated.bind fun _ => Triple.skip _

theorem subscribe_returns (channel : Str) (options : SubscriptionOptions) (now : Nat) :
    Triple [] (fun b => ¬ Refused config b channel options)
      (subscribeWithOptions config sharding channel options now) fun _ _ => True := by
  have named := @triple_internChannel sharding [] (fun b => ¬ Refused config b channel options)
    (clear_nil .interned) channel fun _ _ accepted => accepted
  refine named.bind fun key => ?_
  rintro b ⟨rfl, accepted⟩
  exact (triple_entryChannel key options now).bind (triple_addReceiver key) b accepted

theorem subscribe_refused {b : Broker} {channel : Str} {options : SubscriptionOptions} (now : Nat)
    (refused : Refused config b channel options) : ∃ b',
      subscribeWithOptions config sharding channel options now [] b = .panicked b' := by
  have named := @triple_internChannel sharding [] (fun b => Refused config b channel options)
    (clear_nil .interned) channel fun _ _ refused => refused
  obtain ⟨key, b', ran, rfl, refused⟩ := named b refused
  refine ⟨b', ?_⟩
  unfold subscribeWithOptions
  rw [bind_done ran]
  exact bind_panicked (entryChannel_refused now refused)

/-- A channel without receivers is removed under the guard of its own look-up. -/
theorem sendTo_stranded {b : Broker} {key : Str} (stranded : Stranded b key) :
    sendTo sharding key [] b = .blocked := by
  obtain ⟨sender, known, none⟩ := stranded
  have removed : removeChannel sharding key [guardOf sharding .channels key .read] b = .blocked := by
    refine hold_blocked fun granted => ?_
    exact granted (guardOf sharding .channels key .read) List.mem_cons_self ⟨rfl, .inl rfl⟩
  have counted : (read fun b : Broker => b.receiverCount sender)
      [guardOf sharding .channels key .read] b = .done 0 b := by
    rw [← none]
    rfl
  have looked : channelOf key b = some sender := known
  unfold sendTo
  rw [borrow_found (granted_nil _) looked, bind_done counted, if_pos rfl]
  exact bind_blocked removed

theorem triple_sendTo (key : Str) :
    Triple [] (fun b => ¬ Stranded b key) (sendTo sharding key) fun _ _ => True := by
  refine Triple.borrow (granted_nil _) (fun sender => ?_) ?_
  · rintro b ⟨served, known⟩
    have some : b.receiverCount sender ≠ 0 := fun none => served ⟨sender, known, none⟩
    refine ⟨b.receiverCount sender, b, ?_, trivial⟩
    have counted : (read fun b : Broker => b.receiverCount sender)
        [guardOf sharding .channels key .read] b = .done (b.receiverCount sender) b := rfl
    rw [bind_done counted, if_neg some]
    rfl
  · exact (Triple.skip 0).consequence (fun _ _ => trivial) fun _ _ _ => trivial

theorem triple_updateGlobalMetrics (messageSize : Nat) :
    Triple [] (fun _ => True) (updateGlobalMetrics sharding messageSize) fun _ _ => True := by
  have change : ∀ f : Broker → Broker, Triple ([] : List (Guard Shard)) (fun _ => True) (modify f)
      fun _ _ => True := fun f => Triple.modify f fun _ _ => trivial
  refine (change _).bind fun _ => ?_
  refine Triple.bind (triple_countChannels (clear_nil .channels)) fun channels => ?_
  refine (change _).bind fun _ => ?_
  refine Triple.bind (triple_countReceivers (clear_nil .channels)) fun subscribers => ?_
  exact change _

theorem triple_publishMessage (key : Str) (message : Message Json) (compressed : Bool) (now : Nat) :
    Triple [] (fun b => ¬ Stranded b key)
      (publishMessage serde sharding key message compressed now) fun _ _ => True := by
  have named := @triple_internChannel sharding [] (fun b => ¬ Stranded b key)
    (clear_nil .interned) key fun _ _ served => served
  refine named.bind fun _ => ?_
  rintro b ⟨-, served⟩
  refine Triple.bind (triple_sendTo key) (fun reached => ?_) b served
  have updated := fun change => @triple_updateStats sharding [] (fun _ => True) (clear_nil .stats)
    key change fun _ _ _ => trivial
  refine Triple.bind (updated _) fun _ => ?_
  refine Triple.bind (triple_updateGlobalMetrics _) fun _ => ?_
  exact Triple.skip _

theorem publishMessage_stranded {b : Broker} {key : Str} (message : Message Json)
    (compressed : Bool) (now : Nat) (stranded : Stranded b key) :
    publishMessage serde sharding key message compressed now [] b = .blocked := by
  have named := @triple_internChannel sharding [] (fun b => Stranded b key)
    (clear_nil .interned) key fun _ _ stranded => stranded
  obtain ⟨_, b', ran, -, stranded⟩ := named b stranded
  unfold publishMessage
  rw [bind_done ran]
  exact bind_blocked (sendTo_stranded stranded)

/-- The publication reaches the table of channels, where its channel is stranded. -/
def Sticks (serde : SerdeJson Json) (gzip : Gzip) (config : BrokerConfig) (b : Broker)
    (channel : Str) (payload : MessagePayload Json) (options : PublishOptions) (stamp : UInt64) :
    Prop :=
  (config.prepare serde gzip options channel stamp payload).isOk = true ∧ Stranded b channel

theorem publish_returns (channel : Str) (payload : MessagePayload Json) (options : PublishOptions)
    (stamp : UInt64) (now : Nat) :
    Triple [] (fun b => ¬ Sticks serde gzip config b channel payload options stamp)
      (publishWithOptions serde gzip config sharding channel payload options stamp now)
      fun _ _ => True := by
  have named := @triple_internChannel sharding []
    (fun b => ¬ Sticks serde gzip config b channel payload options stamp) (clear_nil .interned)
    channel fun _ _ free => free
  refine named.bind fun key => ?_
  rintro b ⟨rfl, free⟩
  cases prepared : config.prepare serde gzip options key stamp payload with
  | error e => exact ⟨_, b, rfl, trivial⟩
  | ok sent =>
      have served : ¬ Stranded b key := by
        intro stranded
        refine free ⟨?_, stranded⟩
        rw [prepared]
        rfl
      exact (triple_publishMessage key sent.1 sent.2 now).bind (fun _ => Triple.skip _) b served

theorem publish_sticks {b : Broker} {channel : Str} {payload : MessagePayload Json}
    {options : PublishOptions} {stamp : UInt64} (now : Nat)
    (sticks : Sticks serde gzip config b channel payload options stamp) :
    publishWithOptions serde gzip config sharding channel payload options stamp now [] b =
      .blocked := by
  have named := @triple_internChannel sharding []
    (fun b => Sticks serde gzip config b channel payload options stamp) (clear_nil .interned)
    channel fun _ _ sticks => sticks
  obtain ⟨key, b', ran, rfl, prepared, stranded⟩ := named b sticks
  unfold publishWithOptions
  rw [bind_done ran]
  cases result : config.prepare serde gzip options key stamp payload with
  | error e =>
      rw [result] at prepared
      cases prepared
  | ok sent => exact bind_blocked (publishMessage_stranded sent.1 sent.2 now stranded)

theorem unsubscribe_returns (channel : Str) :
    Triple [] (fun _ => True) (unsubscribe sharding channel) fun _ _ => True := by
  have named := @triple_internChannel sharding [] (fun _ => True) (clear_nil .interned) channel
    fun _ _ _ => trivial
  refine named.bind fun key => ?_
  have removed := @triple_removeChannel sharding [] (fun _ => True) (clear_nil .channels) key
    fun _ _ _ => trivial
  refine Triple.bind (removed.consequence (fun _ _ => trivial) fun _ _ done => done) fun gone => ?_
  cases gone with
  | none => exact Triple.skip false
  | some sender =>
      have dropped := @triple_removeStats sharding [] (fun _ => True) (clear_nil .stats) key
        fun _ _ _ => trivial
      exact dropped.bind fun _ => Triple.skip true

theorem removeInactive_returns (channels : List Str) :
    Triple [] (fun _ => True) (removeInactive sharding channels) fun _ _ => True := by
  induction channels with
  | nil => exact Triple.skip 0
  | cons channel rest ih =>
      have removed := @triple_removeChannel sharding [] (fun _ => True) (clear_nil .channels)
        channel fun _ _ _ => trivial
      refine removed.bind fun gone => ?_
      cases gone with
      | none => exact ih
      | some sender =>
          have dropped := @triple_removeStats sharding [] (fun _ => True) (clear_nil .stats)
            channel fun _ _ _ => trivial
          exact dropped.bind fun _ => ih.bind fun others => Triple.skip (others + 1)

theorem cleanup_returns (now : Nat) :
    Triple [] (fun _ => True) (cleanupInactiveChannels config sharding now) fun _ _ => True := by
  unfold cleanupInactiveChannels
  cases config.channelTtl with
  | none => exact Triple.skip 0
  | some ttl =>
      have found : Triple [] (fun _ => True)
          (sweep (inactive sharding ttl now) [] (shards sharding .stats)) fun _ _ => True :=
        Triple.sweep (fun lock member => granted_shards (clear_nil .stats) member)
          fun lock member => Triple.read _ fun _ _ => trivial
      exact found.bind fun found => removeInactive_returns found.flatten

theorem triple_snapshotEntries {held : List (Guard Shard)} {P : Broker → Prop}
    (clear : Clear .stats held) (now : Nat) (entries : List (Str × Nat)) :
    Triple held P (snapshotEntries sharding now entries) fun _ => P := by
  induction entries with
  | nil => exact Triple.skip []
  | cons entry rest ih =>
      have counted : Triple held P (read fun b : Broker => b.receiverCount entry.2) fun _ => P :=
        Triple.read _ fun _ start => start
      refine counted.bind fun subscriberCount => ?_
      have looked : Triple held P
          (borrow (guardOf sharding .stats entry.1 .read)
            (fun b : Broker => Assoc.get b.stats entry.1) (fun stats => pure stats)
            (pure (ChannelStats.default now))) fun _ => P := by
        refine Triple.borrow clear.granted (fun stats => ?_) ?_
        · exact (Triple.skip stats).consequence (fun _ start => start.1) fun _ _ done => done
        · exact (Triple.skip _).consequence (fun _ start => start.1) fun _ _ done => done
      exact looked.bind fun stats => ih.bind fun others => Triple.skip _

theorem triple_snapshot {P : Broker → Prop} (now : Nat) :
    Triple [] P (snapshot config sharding now) fun _ => P := by
  have shard : ∀ lock ∈ shards sharding .channels, Triple [⟨lock, .read⟩] P
      (snapshotShard sharding now lock) fun _ => P := by
    intro lock member
    have clear : Clear .stats [⟨lock, Mode.read⟩] :=
      (clear_nil .stats).shards (by decide) member
    have listed : Triple [⟨lock, Mode.read⟩] P
        (read fun b : Broker => entriesOf sharding lock b.channels) fun _ => P :=
      Triple.read _ fun _ start => start
    exact listed.bind fun entries => triple_snapshotEntries clear now entries
  have walked : Triple [] P
      (sweep (snapshotShard sharding now) [] (shards sharding .channels)) fun _ => P :=
    Triple.sweep (fun lock member => granted_shards (clear_nil .channels) member) shard
  refine walked.bind fun channels => ?_
  have measured : Triple ([] : List (Guard Shard)) P (read fun b : Broker => b.metrics)
      fun _ => P := Triple.read _ fun _ start => start
  exact measured.bind fun metrics => Triple.skip _

/-- The calls that wait for themselves, and those that panic. -/
def BrokerCall.Sticks (serde : SerdeJson Json) (gzip : Gzip) (config : BrokerConfig) (b : Broker) :
    BrokerCall Json → Prop
  | .publishWithOptions channel payload options stamp _ =>
      Pubsub.Sticks serde gzip config b channel payload options stamp
  | _ => False

def BrokerCall.Refused (config : BrokerConfig) (b : Broker) : BrokerCall Json → Prop
  | .subscribeWithOptions channel options _ => Pubsub.Refused config b channel options
  | _ => False

/-- What a call comes to with no guards around it. -/
def BrokerCall.outcome (serde : SerdeJson Json) (gzip : Gzip) (config : BrokerConfig)
    (sharding : Table → Sharding) (b : Broker) (call : BrokerCall Json) : Run Broker BrokerReply :=
  call.run serde gzip config sharding [] b

/-- The state in which the next call finds the broker; there is none after a call that hangs. -/
def BrokerCall.step (serde : SerdeJson Json) (gzip : Gzip) (config : BrokerConfig)
    (sharding : Table → Sharding) (b : Broker) (call : BrokerCall Json) : Option Broker :=
  match call.outcome serde gzip config sharding b with
  | .done _ b' => some b'
  | .panicked b' => some b'
  | .blocked => none

namespace BrokerCall

variable {b : Broker} {call : BrokerCall Json}

theorem outcome_sticks (sticks : call.Sticks serde gzip config b) :
    call.outcome serde gzip config sharding b = .blocked := by
  cases call with
  | publishWithOptions channel payload options stamp now =>
      exact bind_blocked (publish_sticks now sticks)
  | subscribeWithOptions channel options now => exact sticks.elim
  | dropSubscriber sender => exact sticks.elim
  | unsubscribe channel => exact sticks.elim
  | cleanupInactiveChannels now => exact sticks.elim
  | snapshot now => exact sticks.elim

theorem outcome_refused (refused : call.Refused config b) : ∃ b',
    call.outcome serde gzip config sharding b = .panicked b' := by
  cases call with
  | subscribeWithOptions channel options now =>
      obtain ⟨b', ran⟩ := @subscribe_refused config sharding _ _ _ now refused
      exact ⟨b', bind_panicked ran⟩
  | publishWithOptions channel payload options stamp now => exact refused.elim
  | dropSubscriber sender => exact refused.elim
  | unsubscribe channel => exact refused.elim
  | cleanupInactiveChannels now => exact refused.elim
  | snapshot now => exact refused.elim

theorem outcome_returns (free : ¬ call.Sticks serde gzip config b)
    (accepted : ¬ call.Refused config b) : ∃ reply b',
      call.outcome serde gzip config sharding b = .done reply b' := by
  have finished : ∀ {α : Type} {m : Guarded Shard Broker α} {P : Broker → Prop}
      (reply : α → BrokerReply), Triple [] P m (fun _ _ => True) → P b →
      ∃ r b', (m >>= fun a => pure (reply a)) [] b = .done r b' := by
    intro α m P reply returns start
    obtain ⟨r, b', ran, -⟩ := returns.bind (R := fun _ _ => True) (fun a => Triple.skip (reply a))
      b start
    exact ⟨r, b', ran⟩
  cases call with
  | subscribeWithOptions channel options now =>
      exact finished .subscribed (subscribe_returns channel options now) accepted
  | dropSubscriber sender => exact ⟨_, _, rfl⟩
  | publishWithOptions channel payload options stamp now =>
      exact finished .published (publish_returns channel payload options stamp now) free
  | unsubscribe channel => exact finished .unsubscribed (unsubscribe_returns channel) trivial
  | cleanupInactiveChannels now => exact finished .cleaned (cleanup_returns now) trivial
  | snapshot now => exact finished .snapshot (triple_snapshot now) trivial

theorem unblocked_iff : call.outcome serde gzip config sharding b ≠ .blocked ↔
    ¬ call.Sticks serde gzip config b := by
  constructor
  · intro runs sticks
    exact runs (outcome_sticks sticks)
  · intro free blocked
    by_cases refused : call.Refused config b
    · obtain ⟨b', ran⟩ := @outcome_refused _ serde gzip config sharding b call refused
      rw [ran] at blocked
      cases blocked
    · obtain ⟨reply, b', ran⟩ := @outcome_returns _ serde gzip config sharding b call free refused
      rw [ran] at blocked
      cases blocked

theorem returns_iff : (∃ reply b', call.outcome serde gzip config sharding b = .done reply b') ↔
    ¬ call.Sticks serde gzip config b ∧ ¬ call.Refused config b := by
  constructor
  · rintro ⟨reply, b', ran⟩
    constructor
    · intro sticks
      rw [outcome_sticks sticks] at ran
      cases ran
    · intro refused
      obtain ⟨b'', panicked⟩ := @outcome_refused _ serde gzip config sharding b call refused
      rw [panicked] at ran
      cases ran
  · rintro ⟨free, accepted⟩
    exact outcome_returns free accepted

end BrokerCall

/-- In a run of calls on a new broker none waits for a guard that it holds exactly when no message
is sent to a channel in the table whose subscribers are all gone; all return exactly when, besides,
no channel of a capacity that is refused is made. -/
theorem broker_unblocked_iff (serde : SerdeJson Json) (gzip : Gzip) (config : BrokerConfig)
    (sharding : Table → Sharding) (calls : List (BrokerCall Json)) :
    (Runs.Along (BrokerCall.step serde gzip config sharding)
        (fun b call => call.outcome serde gzip config sharding b ≠ .blocked) .new calls ↔
      Runs.Along (BrokerCall.step serde gzip config sharding)
        (fun b call => ¬ call.Sticks serde gzip config b) .new calls) ∧
    (Runs.Along (BrokerCall.step serde gzip config sharding)
        (fun b call => ∃ reply b', call.outcome serde gzip config sharding b = .done reply b')
        .new calls ↔
      Runs.Along (BrokerCall.step serde gzip config sharding)
        (fun b call => ¬ call.Sticks serde gzip config b ∧ ¬ call.Refused config b) .new calls) := by
  constructor
  · exact @Runs.along_congr _ _ _ _ (fun _ => True) _ (fun _ _ _ _ _ => trivial)
      (fun b call _ => BrokerCall.unblocked_iff) _ _ trivial
  · exact @Runs.along_congr _ _ _ _ (fun _ => True) _ (fun _ _ _ _ _ => trivial)
      (fun b call _ => BrokerCall.returns_iff) _ _ trivial

end

/-- Tables of one shard. -/
def oneShard : Table → Sharding := fun _ => ⟨1, fun _ => 0, fun _ => Nat.zero_lt_one⟩

/-- A channel whose only subscriber is gone, and one more message. -/
theorem last_subscriber_gone :
    ¬ ∀ (serde : SerdeJson Unit) (gzip : Gzip) (config : BrokerConfig) (sharding : Table → Sharding)
      (calls : List (BrokerCall Unit)), Runs.Along (BrokerCall.step serde gzip config sharding)
        (fun b call => call.outcome serde gzip config sharding b ≠ .blocked) .new calls := by
  intro always
  have along := always nullSerde noGzip .default oneShard
    [.subscribeWithOptions (Str.lit "c") .default 0, .dropSubscriber 0,
      .publishWithOptions (Str.lit "c") (.string (Str.lit "hello")) .default 0 1]
  obtain ⟨-, rest⟩ := along
  obtain ⟨-, rest⟩ := rest _ rfl
  obtain ⟨runs, -⟩ := rest _ rfl
  exact runs (BrokerCall.outcome_sticks ⟨rfl, 0, rfl, rfl⟩)

end Zumic.Pubsub
