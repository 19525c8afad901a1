import CommonDataLayer.Api.Subscriptions
import CommonDataLayer.CommandService.MessageRouter
import CommonDataLayer.Foundations.Broadcast

/-! # The streams of a subscriber

The task of an `EventSubscriber` sends what its consumer yields into a broadcast channel of 32 values.
Each `EventStream` has a receiver of its own, and is a `try_stream!` that passes on what it receives;
an item that is an error, or the news that values were missed, ends it.

* `reports_run`: whatever is polled when, a stream yields what was sent since it was created, in order
  and without a gap, and at most one error, which is the last it yields.
* `missesNothing_iff`: no stream misses a value, exactly if no stream is more than 32 values behind when
  it is polled.
-/
namespace CommonDataLayer.Api
open MessagingSystem TryStream TransitionSystem Broadcast
open Stream' (Seq)
set_option autoImplicit false

/-- What a `?` of the stream turns into a `FieldError`. -/
inductive StreamError where
  | lagged (missed : ℕ)
  | messageQueue (err : String)
  deriving DecidableEq, Repr

structure EventStream where
  /-- The position of the receiver, until the stream has ended or was dropped. -/
  receiver : Option ℕ
  /-- The position at which the receiver was created. -/
  start : ℕ
  yielded : List (Except StreamError Event)

namespace EventStream

def new (position : ℕ) : EventStream := ⟨some position, position, []⟩

/-- The rest of a round of the loop, when `recv` has returned or is pending. -/
def received (stream : EventStream) : Received (Except String Event) × ℕ → EventStream
  | (.empty, _) => stream
  | (.value (.ok item), next) =>
    { stream with receiver := some next, yielded := stream.yielded ++ [.ok item] }
  | (.value (.error err), _) =>
    { stream with receiver := none, yielded := stream.yielded ++ [.error (.messageQueue err)] }
  | (.lagged missed, _) =>
    { stream with receiver := none, yielded := stream.yielded ++ [.error (.lagged missed)] }

/-- `poll_next`; an item that is ready is added to what the stream has yielded. -/
def pollNext (channel : Channel (Except String Event)) (stream : EventStream) : EventStream :=
  match stream.receiver with
  | some next => stream.received (channel.recv next)
  | none => stream

def drop (stream : EventStream) : EventStream := { stream with receiver := none }

end EventStream

/-- The subscriber of a topic, its task, and the streams it has handed out. -/
structure EventSubscriber where
  task : ConsumerTask
  channel : Channel (Except String Event)
  streams : List EventStream

inductive EventAction where
  | polled
  | subscribe
  | pollNext (stream : ℕ)
  | dropped (stream : ℕ)

namespace EventSubscriber

def new (topic : String) (consumer : CommonConsumer) (results : Seq (Except String consumer.Item)) :
    EventSubscriber where
  task := .spawn topic consumer results
  channel := .new 32
  streams := [.new 0]

/-- Every item that the task was given so far. -/
def sent (s : EventSubscriber) : List (Except String Event) := s.task.loop.world

/-- What a round of the task sends goes into the channel. -/
def poll (s : EventSubscriber) : EventSubscriber :=
  { s with
    task := s.task.poll
    channel := (s.task.poll.loop.world.drop s.sent.length).foldl Channel.send s.channel }

def subscribe (s : EventSubscriber) : EventSubscriber :=
  { s with streams := s.streams ++ [.new s.channel.subscribe] }

def step (s : EventSubscriber) : EventAction → EventSubscriber
  | .polled => s.poll
  | .subscribe => s.subscribe
  | .pollNext i => { s with streams := s.streams.modify i (EventStream.pollNext s.channel) }
  | .dropped i => { s with streams := s.streams.modify i EventStream.drop }

abbrev Step (s : EventSubscriber) (action : EventAction) (s' : EventSubscriber) : Prop :=
  s' = s.step action

end EventSubscriber

/-- What a stream has yielded, against all that was sent. -/
inductive EventStream.Follows (sent : List (Except String Event)) : EventStream → Prop where
  | waiting {start : ℕ} (events : List Event) (segment : events.map .ok <+: sent.drop start) :
      Follows sent ⟨some (start + events.length), start, events.map .ok⟩
  | dropped {start : ℕ} (events : List Event) (segment : events.map .ok <+: sent.drop start) :
      Follows sent ⟨none, start, events.map .ok⟩
  | failed {start : ℕ} (events : List Event) (err : String)
      (segment : events.map .ok ++ [.error err] <+: sent.drop start) :
      Follows sent ⟨none, start, events.map .ok ++ [.error (.messageQueue err)]⟩
  | lagged {start : ℕ} (events : List Event) (missed : ℕ)
      (segment : events.map .ok <+: sent.drop start) (pos : 0 < missed)
      (behind : start + events.length + missed + 32 ≤ sent.length) :
      Follows sent ⟨none, start, events.map .ok ++ [.error (.lagged missed)]⟩

/-- The items up to the first error, and the error. -/
def throughError {ε A : Type} : List (Except ε A) → List (Except ε A)
  | .ok a :: results => .ok a :: throughError results
  | .error e :: _ => [.error e]
  | [] => []

/-! ## What the task sends -/

section Sent
variable {consumer : CommonConsumer}

/-- A round sends the next item of the consumer, or nothing. -/
theorem round_sent (loop : Loop String consumer.Item (List BorrowedMessage) (List (Except String Event))) :
    ∃ more, (loop.round consumer.consumeBody sendItem).world = loop.world ++ more := by
  unfold Loop.round
  split
  · exact ⟨[], (List.append_nil _).symm⟩
  · split
    · exact ⟨[], (List.append_nil _).symm⟩
    · exact ⟨[_], rfl⟩

/-- The task sends the messages up to the first error, and the error. -/
theorem rounds_sent (n : ℕ) (results : Seq (Except String consumer.Item)) (added : List BorrowedMessage)
    (world : List (Except String Event)) :
    (Loop.rounds consumer.consumeBody sendItem n ⟨.running results added, world, false⟩).world =
      world ++ (throughError (results.take n)).map (Except.map fun item => Event.new (consumer.message item)) := by
  induction n generalizing results added world with
  | zero => simp [Loop.rounds, throughError]
  | succ n ih =>
    rw [rounds_succ]
    cases hsource : results.destruct with
    | none =>
      rw [rounds_left (by simp [Loop.round, Generator.next, hsource])]
      simp [Loop.round, Generator.next, hsource, Seq.take, throughError]
    | some first =>
      obtain ⟨result, rest⟩ := first
      cases result with
      | error e =>
        have hround : Loop.round consumer.consumeBody sendItem ⟨.running results added, world, false⟩ =
            ⟨.ended, world ++ [.error e], false⟩ := by
          simp [Loop.round, Generator.next, hsource, sendItem, Except.map]
        rw [hround, rounds_ended]
        simp [Seq.take, hsource, throughError, Except.map]
      | ok item =>
        have hround : Loop.round consumer.consumeBody sendItem ⟨.running results added, world, false⟩ =
            ⟨.running rest (consumer.consumeBody added item).2,
              world ++ [.ok (Event.new (consumer.message item))], false⟩ := by
          simp [Loop.round, Generator.next, hsource, sendItem, Except.map, consumer.consumeBody_fst]
        rw [hround, ih]
        simp [Seq.take, hsource, throughError, Except.map]

end Sent

/-! ## What the streams yield -/

variable {sent : List (Except String Event)} {stream : EventStream} {s s' : EventSubscriber}

theorem prefix_drop_append {l : List (Except String Event)} {start : ℕ} (h : l <+: sent.drop start)
    (more : List (Except String Event)) : l <+: (sent ++ more).drop start := by
  rw [List.drop_append]
  exact h.trans (List.prefix_append _ _)

/-- The next item goes on with a segment. -/
theorem prefix_concat {l : List (Except String Event)} {start : ℕ} {item : Except String Event}
    (h : l <+: sent.drop start) (hitem : sent[start + l.length]? = some item) :
    l ++ [item] <+: sent.drop start := by
  obtain ⟨rest, hrest⟩ := h
  have hget : (l ++ rest)[l.length]? = some item := by rw [hrest, List.getElem?_drop, hitem]
  rw [List.getElem?_append_right (Nat.le_refl _), Nat.sub_self] at hget
  obtain ⟨rest', rfl⟩ : ∃ rest', rest = item :: rest' := by
    cases rest with
    | nil => cases hget
    | cons first rest => exact ⟨rest, by rw [Option.some.inj hget]⟩
  exact ⟨rest', by rw [← hrest, List.append_assoc]; rfl⟩

namespace EventStream

theorem Follows.mono (h : Follows sent stream) (more : List (Except String Event)) :
    Follows (sent ++ more) stream := by
  cases h with
  | waiting events segment => exact .waiting events (prefix_drop_append segment more)
  | dropped events segment => exact .dropped events (prefix_drop_append segment more)
  | failed events err segment => exact .failed events err (prefix_drop_append segment more)
  | lagged events missed segment pos behind =>
    refine .lagged events missed (prefix_drop_append segment more) pos ?_
    rw [List.length_append]
    omega

theorem follows_new : Follows sent (.new sent.length) :=
  .waiting [] (List.nil_prefix)

theorem Follows.drop (h : Follows sent stream) : Follows sent stream.drop := by
  cases h with
  | waiting events segment => exact .dropped events segment
  | dropped events segment => exact .dropped events segment
  | failed events err segment => exact .failed events err segment
  | lagged events missed segment pos behind => exact .lagged events missed segment pos behind

theorem length_of_segment {events : List Event} {start : ℕ} (hstart : start ≤ sent.length)
    (h : events.map .ok <+: sent.drop start) : start + events.length ≤ sent.length := by
  have hlength := h.length_le
  rw [List.length_map, List.length_drop] at hlength
  omega

theorem start_pollNext (channel : Channel (Except String Event)) (stream : EventStream) :
    (stream.pollNext channel).start = stream.start := by
  unfold EventStream.pollNext
  split
  · unfold EventStream.received
    split <;> rfl
  · rfl

theorem Follows.pollNext {channel : Channel (Except String Event)} (h : Follows sent stream)
    (hstart : stream.start ≤ sent.length) (hkeeps : channel.Keeps sent) (hcapacity : channel.capacity = 32) :
    Follows sent (stream.pollNext channel) := by
  cases h with
  | dropped events segment => exact .dropped events segment
  | failed events err segment => exact .failed events err segment
  | lagged events missed segment pos behind => exact .lagged events missed segment pos behind
  | @waiting start events segment =>
    have hnext : start + events.length ≤ sent.length := length_of_segment hstart segment
    show Follows sent (received _ (channel.recv (start + events.length)))
    obtain ⟨hrecv, -⟩ | ⟨item, hrecv, hitem, -⟩ | ⟨hrecv, hbehind⟩ := Channel.recv_cases hkeeps hnext
    · rw [hrecv]
      exact .waiting events segment
    · rw [hrecv]
      have hsegment : events.map .ok ++ [item] <+: sent.drop start :=
        prefix_concat segment (by rwa [List.length_map])
      cases item with
      | ok item =>
        have hextended : (events ++ [item]).map Except.ok <+: sent.drop start := by simpa using hsegment
        have hwaiting := Follows.waiting (events ++ [item]) hextended
        rw [List.length_append, List.map_append] at hwaiting
        exact hwaiting
      | error err => exact .failed events err hsegment
    · rw [hrecv]
      rw [hcapacity] at hbehind ⊢
      have hlagged := Follows.lagged events (sent.length - 32 - (start + events.length)) segment
        (by omega) (by omega)
      exact hlagged

end EventStream

namespace EventSubscriber

/-- The channel holds what was sent, and every stream has yielded its part of it. -/
structure Sound (s : EventSubscriber) : Prop where
  keeps : s.channel.Keeps s.sent
  capacity : s.channel.capacity = 32
  follows : ∀ stream ∈ s.streams, stream.start ≤ s.sent.length ∧ stream.Follows s.sent

theorem sound_new (topic : String) (consumer : CommonConsumer)
    (results : Seq (Except String consumer.Item)) : (new topic consumer results).Sound where
  keeps := Channel.keeps_new 32
  capacity := rfl
  follows := List.forall_mem_singleton.mpr ⟨Nat.le_refl _, EventStream.follows_new⟩

theorem poll_sent (s : EventSubscriber) : ∃ more, s.poll.sent = s.sent ++ more ∧
    s.poll.channel = more.foldl Channel.send s.channel := by
  obtain ⟨more, hmore⟩ := round_sent s.task.loop
  have hsent : s.task.poll.loop.world = s.sent ++ more := hmore
  refine ⟨more, hsent, ?_⟩
  show (s.task.poll.loop.world.drop s.sent.length).foldl Channel.send s.channel = _
  rw [hsent, List.drop_left]

theorem mem_modify {streams : List EventStream} {i : ℕ} {f : EventStream → EventStream}
    (h : stream ∈ streams.modify i f) :
    stream ∈ streams ∨ ∃ old, streams[i]? = some old ∧ stream = f old := by
  obtain ⟨j, hj⟩ := List.mem_iff_getElem?.mp h
  rw [List.getElem?_modify] at hj
  split at hj
  · rename_i hij
    obtain ⟨old, hold, rfl⟩ := Option.map_eq_some_iff.mp hj
    exact .inr ⟨old, hij ▸ hold, rfl⟩
  · exact .inl (List.mem_of_getElem? (by simpa using hj))

theorem Sound.step (h : s.Sound) (action : EventAction) : (s.step action).Sound := by
  cases action with
  | polled =>
    obtain ⟨more, hsent, hchannel⟩ := s.poll_sent
    constructor
    · show s.poll.channel.Keeps s.poll.sent
      rw [hsent, hchannel]
      exact h.keeps.foldl_send more
    · show s.poll.channel.capacity = 32
      rw [hchannel, Channel.capacity_foldl_send, h.capacity]
    · intro stream hstream
      show stream.start ≤ s.poll.sent.length ∧ stream.Follows s.poll.sent
      obtain ⟨hstart, hfollows⟩ := h.follows stream hstream
      rw [hsent, List.length_append]
      exact ⟨by omega, hfollows.mono more⟩
  | subscribe =>
    refine ⟨h.keeps, h.capacity, List.forall_mem_append.mpr ⟨h.follows, ?_⟩⟩
    have hnew : EventStream.new s.channel.subscribe = .new s.sent.length :=
      congrArg EventStream.new h.keeps.tail
    rw [List.forall_mem_singleton, hnew]
    exact ⟨Nat.le_refl _, EventStream.follows_new⟩
  | pollNext i =>
    refine ⟨h.keeps, h.capacity, fun stream hstream => ?_⟩
    obtain hold | ⟨old, hold, rfl⟩ := mem_modify hstream
    · exact h.follows stream hold
    · obtain ⟨hstart, hfollows⟩ := h.follows old (List.mem_of_getElem? hold)
      refine ⟨?_, hfollows.pollNext hstart h.keeps h.capacity⟩
      rw [EventStream.start_pollNext]
      exact hstart
  | dropped i =>
    refine ⟨h.keeps, h.capacity, fun stream hstream => ?_⟩
    obtain hold | ⟨old, hold, rfl⟩ := mem_modify hstream
    · exact h.follows stream hold
    · obtain ⟨hstart, hfollows⟩ := h.follows old (List.mem_of_getElem? hold)
      exact ⟨hstart, hfollows.drop⟩

theorem sound_run {topic : String} {consumer : CommonConsumer}
    {results : Seq (Except String consumer.Item)} {ts : List (Transition EventSubscriber EventAction)}
    (hrun : Run Step (new topic consumer results) ts s) : s.Sound := by
  have hstep (s : EventSubscriber) (action : EventAction) (s' : EventSubscriber) (hsound : s.Sound)
      (next : Step s action s') (_ : True) : s'.Sound := next ▸ hsound.step action
  obtain ⟨hsound, -⟩ : s.Sound ∧ ∀ t ∈ ts, t.before.Sound ∧ t.after.Sound :=
    hrun.invariant (sound_new topic consumer results) hstep fun _ _ => trivial
  exact hsound

end EventSubscriber

/-! ## The task of a run -/

namespace ConsumerTask

theorem iterate_poll (n : ℕ) (task : ConsumerTask) : poll^[n] task =
    { task with loop := task.loop.rounds task.consumer.consumeBody sendItem n } := by
  induction n generalizing task with
  | zero => rfl
  | succ n ih => rw [Function.iterate_succ_apply, ih, rounds_succ]; rfl

end ConsumerTask

/-- What a message of the consumer is to the streams. -/
def eventOf (consumer : CommonConsumer) (result : Except String consumer.Item) : Except String Event :=
  result.map fun item => Event.new (consumer.message item)

theorem EventSubscriber.sent_run {topic : String} {consumer : CommonConsumer}
    {results : Seq (Except String consumer.Item)} {ts : List (Transition EventSubscriber EventAction)}
    (hrun : Run Step (new topic consumer results) ts s) :
    ∃ n, s.sent = (throughError (results.take n)).map (eventOf consumer) := by
  let polledTo (s : EventSubscriber) : Prop :=
    ∃ n, s.task = ConsumerTask.poll^[n] (.spawn topic consumer results)
  have hstep (s : EventSubscriber) (action : EventAction) (s' : EventSubscriber)
      (h : polledTo s) (next : Step s action s') (_ : True) : polledTo s' := by
    obtain ⟨n, hn⟩ := h
    obtain rfl := next
    cases action with
    | polled =>
      refine ⟨n + 1, ?_⟩
      rw [Function.iterate_succ_apply', ← hn]
      rfl
    | _ => exact ⟨n, hn⟩
  obtain ⟨⟨n, hn⟩, -⟩ : polledTo s ∧ ∀ t ∈ ts, polledTo t.before ∧ polledTo t.after :=
    hrun.invariant ⟨0, rfl⟩ hstep fun _ _ => trivial
  refine ⟨n, ?_⟩
  rw [sent, hn, ConsumerTask.iterate_poll]
  exact rounds_sent n results [] []

/-! ## Reports -/

/-- What the GraphQL type `Report` is read from. -/
structure Report where
  application : String
  outputPlugin : Option String
  description : String
  objectId : Uuid
  payload : Value

inductive ReportError where
  | stream (err : StreamError)
  | json (err : String)

/-- One item of `reports`: an event without a payload is passed over, and a payload that is no report
is an error, after which the stream goes on. -/
def reportOf (fromStr : String → Except String Report) :
    Except StreamError Event → Option (Except ReportError Report)
  | .error err => some (.error (.stream err))
  | .ok event => event.payload.map fun payload => (fromStr payload).mapError .json

def reports (fromStr : String → Except String Report) (stream : EventStream) :
    List (Except ReportError Report) := stream.yielded.filterMap (reportOf fromStr)

/-- The reports of items of the consumer. -/
def reportsOf (fromStr : String → Except String Report) (consumer : CommonConsumer)
    (results : List (Except String consumer.Item)) : List (Except ReportError Report) :=
  results.filterMap fun result => reportOf fromStr ((eventOf consumer result).mapError .messageQueue)

/-- A stream has yielded a segment of what was sent, and perhaps that it missed values. -/
theorem EventStream.Follows.segment (h : Follows sent stream) : ∃ segment lag,
    segment <+: sent.drop stream.start ∧
    stream.yielded = segment.map (Except.mapError .messageQueue) ++ lag ∧
    (lag = [] ∨ ∃ missed, 0 < missed ∧ lag = [.error (.lagged missed)] ∧
      stream.start + segment.length + missed + 32 ≤ sent.length) := by
  have hok (events : List Event) : (events.map Except.ok).map (Except.mapError StreamError.messageQueue) =
      events.map .ok := by
    rw [List.map_map]
    rfl
  cases h with
  | waiting events segment => exact ⟨_, [], segment, by rw [hok, List.append_nil], .inl rfl⟩
  | dropped events segment => exact ⟨_, [], segment, by rw [hok, List.append_nil], .inl rfl⟩
  | failed events err segment =>
    refine ⟨_, [], segment, ?_, .inl rfl⟩
    rw [List.map_append, hok, List.append_nil]
    rfl
  | lagged events missed segment pos behind =>
    refine ⟨_, [.error (.lagged missed)], segment, by rw [hok], .inr ⟨missed, pos, rfl, ?_⟩⟩
    rw [List.length_map]
    exact behind

/-- **A subscription shows a segment of the queue.** Whatever is polled, subscribed and dropped when, the
reports of a stream are those of the messages from its creation on, one by one and in order, up to where
it is now. A failure of the consumer or missed values come last. -/
theorem reports_run (fromStr : String → Except String Report) {topic : String} {consumer : CommonConsumer}
    {results : Seq (Except String consumer.Item)} {ts : List (Transition EventSubscriber EventAction)}
    (hrun : Run EventSubscriber.Step (.new topic consumer results) ts s) :
    ∃ n, ∀ stream ∈ s.streams, ∃ segment lag,
      segment <+: (throughError (results.take n)).drop stream.start ∧
      reports fromStr stream = reportsOf fromStr consumer segment ++ lag ∧
      (lag = [] ∨ ∃ missed, 0 < missed ∧ lag = [.error (.stream (.lagged missed))] ∧
        stream.start + segment.length + missed + 32 ≤ (throughError (results.take n)).length) := by
  obtain ⟨n, hsent⟩ := EventSubscriber.sent_run hrun
  refine ⟨n, fun stream hstream => ?_⟩
  obtain ⟨events, lag, hsegment, hyielded, hlag⟩ :=
    ((EventSubscriber.sound_run hrun).follows stream hstream).2.segment
  rw [hsent, ← List.map_drop] at hsegment
  rw [hsent, List.length_map] at hlag
  obtain ⟨segment, hprefix, rfl⟩ : ∃ segment, segment <+: (throughError (results.take n)).drop stream.start ∧
      events = segment.map (eventOf consumer) := by
    refine ⟨_, List.take_prefix events.length _, ?_⟩
    rw [List.map_take]
    exact List.prefix_iff_eq_take.mp hsegment
  rw [List.length_map] at hlag
  refine ⟨segment, lag.filterMap (reportOf fromStr), hprefix, ?_, ?_⟩
  · rw [reports, hyielded, List.filterMap_append, List.map_map, List.filterMap_map]
    rfl
  · obtain rfl | ⟨missed, hpos, rfl, hbehind⟩ := hlag
    · exact .inl rfl
    · exact .inr ⟨missed, hpos, rfl, hbehind⟩

def sampleReport : Report where
  application := CommandService.applicationName
  outputPlugin := some "PostgreSQL"
  description := "Success"
  objectId := 1
  payload := .object []

def sampleReportText : String :=
  "\x7b\"application\":\"Command Service\",\"output_plugin\":\"PostgreSQL\"," ++
  "\"description\":\"Success\",\"object_id\":\"00000000-0000-0000-0000-000000000001\"," ++
  "\"payload\":\x7b\x7d\x7d"

def sampleFromStr (text : String) : Except String Report :=
  if text = sampleReportText then .ok sampleReport else .error "expected value at line 1 column 1"

/-- A report, and then the broker is gone. -/
def sampleReports : EventSubscriber :=
  .new "reports" .amqp (Seq.ofList [.ok ⟨"command_service.status", .ok sampleReportText⟩,
    .error "connection closed"])

/-- The second stream is created after the report was sent. -/
def sampleActions : List EventAction :=
  [.polled, .subscribe, .polled, .pollNext 0, .pollNext 0, .pollNext 0, .pollNext 1]

theorem reports_run_sample : ∃ ts s, Run EventSubscriber.Step sampleReports ts s ∧
    s.streams.map (reports sampleFromStr) =
      [[.ok sampleReport, .error (.stream (.messageQueue "connection closed"))],
        [.error (.stream (.messageQueue "connection closed"))]] ∧
    ∃ n, ∀ stream ∈ s.streams, ∃ segment lag,
      segment <+: (throughError ((Seq.ofList [.ok ⟨"command_service.status", .ok sampleReportText⟩,
        .error "connection closed"]).take n)).drop stream.start ∧
      reports sampleFromStr stream = reportsOf sampleFromStr .amqp segment ++ lag := by
  obtain ⟨ts, hrun, -⟩ : ∃ ts, Run EventSubscriber.Step sampleReports ts
      (sampleActions.foldl EventSubscriber.step sampleReports) ∧ ts.map (·.label) = sampleActions :=
    Run.of_foldl sampleActions
  have hstreams : (sampleActions.foldl EventSubscriber.step sampleReports).streams =
      [⟨none, 0, [.ok ⟨some "command_service.status", some sampleReportText⟩,
        .error (.messageQueue "connection closed")]⟩,
      ⟨none, 1, [.error (.messageQueue "connection closed")]⟩] := rfl
  have hreport : sampleFromStr sampleReportText = .ok sampleReport := if_pos rfl
  refine ⟨ts, _, hrun, ?_, ?_⟩
  · rw [hstreams]
    simp [reports, reportOf, hreport, Except.mapError]
  obtain ⟨n, hn⟩ := reports_run sampleFromStr hrun
  refine ⟨n, fun stream hstream => ?_⟩
  obtain ⟨segment, lag, hsegment, hreports, -⟩ := hn stream hstream
  exact ⟨segment, lag, hsegment, hreports⟩

/-! ## When values are missed -/

/-- A stream is polled before more than 32 items are waiting for it. -/
def EventSubscriber.InTime (s : EventSubscriber) : EventAction → Prop
  | .pollNext i => ∀ stream next, s.streams[i]? = some stream → stream.receiver = some next →
      s.sent.length ≤ next + 32
  | _ => True

/-- No stream was told that it missed values. -/
def EventSubscriber.MissesNothing (s : EventSubscriber) : Prop :=
  ∀ stream ∈ s.streams, ∀ missed, .error (.lagged missed) ∉ stream.yielded

theorem EventSubscriber.Sound.position {i next : ℕ} (h : s.Sound) (hstream : s.streams[i]? = some stream)
    (hnext : stream.receiver = some next) : next ≤ s.sent.length := by
  obtain ⟨hstart, hfollows⟩ := h.follows stream (List.mem_of_getElem? hstream)
  cases hfollows with
  | waiting events segment =>
    obtain rfl := Option.some.inj hnext
    exact EventStream.length_of_segment hstart segment
  | dropped => cases hnext
  | failed => cases hnext
  | lagged => cases hnext

/-- Polling in time misses nothing. -/
theorem EventSubscriber.MissesNothing.step (h : s.MissesNothing) (hsound : s.Sound) {action : EventAction}
    (hin : s.InTime action) : (s.step action).MissesNothing := by
  cases action with
  | polled => exact h
  | subscribe =>
    refine List.forall_mem_append.mpr ⟨h, ?_⟩
    exact List.forall_mem_singleton.mpr fun missed => List.not_mem_nil
  | dropped i =>
    intro stream hstream
    obtain hold | ⟨old, hold, rfl⟩ := mem_modify hstream
    · exact h stream hold
    · exact h old (List.mem_of_getElem? hold)
  | pollNext i =>
    intro stream hstream missed
    obtain hold | ⟨old, hold, rfl⟩ := mem_modify hstream
    · exact h stream hold missed
    have hmissed := h old (List.mem_of_getElem? hold) missed
    unfold EventStream.pollNext
    split
    · rename_i next hnext
      have hbehind : s.sent.length ≤ next + 32 := hin old next hold hnext
      obtain ⟨hrecv, -⟩ | ⟨item, hrecv, -⟩ | ⟨-, hlagged⟩ :=
        Channel.recv_cases hsound.keeps (hsound.position hold hnext)
      · rw [hrecv]
        exact hmissed
      · rw [hrecv]
        cases item <;> simpa [EventStream.received] using hmissed
      · rw [hsound.capacity] at hlagged
        omega
    · exact hmissed

/-- A stream that is polled too late is told so. -/
theorem EventSubscriber.not_missesNothing (hsound : s.Sound) {action : EventAction} (hlate : ¬ s.InTime action) :
    ¬ (s.step action).MissesNothing := by
  cases action with
  | pollNext i =>
    simp only [InTime, not_forall, not_le] at hlate
    obtain ⟨stream, next, hstream, hnext, hbehind⟩ := hlate
    intro h
    have hmem : stream.pollNext s.channel ∈ (s.step (.pollNext i)).streams :=
      List.mem_of_getElem? (by rw [step, List.getElem?_modify_eq, hstream]; rfl)
    obtain ⟨hrecv, hend⟩ | ⟨item, hrecv, -, hkept⟩ | ⟨hrecv, -⟩ :=
      Channel.recv_cases hsound.keeps (hsound.position hstream hnext)
    · omega
    · rw [hsound.capacity] at hkept
      omega
    · refine h _ hmem (s.sent.length - s.channel.capacity - next) ?_
      unfold EventStream.pollNext
      rw [hnext]
      simp [hrecv, EventStream.received]
  | _ => exact absurd trivial hlate

/-- **Nothing is missed exactly if every stream is polled in time.** -/
theorem missesNothing_iff {topic : String} {consumer : CommonConsumer}
    {results : Seq (Except String consumer.Item)} {ts : List (Transition EventSubscriber EventAction)}
    (hrun : Run EventSubscriber.Step (.new topic consumer results) ts s) :
    (∀ s ∈ states (.new topic consumer results) ts, s.MissesNothing) ↔
      ∀ t ∈ ts, t.before.InTime t.label := by
  have hgood (s : EventSubscriber) (h : s.Sound ∧ s.MissesNothing) : s.MissesNothing := h.2
  refine hrun.states_iff ?_ hgood ?_ ?_
  · exact ⟨EventSubscriber.sound_new topic consumer results,
      List.forall_mem_singleton.mpr fun missed => List.not_mem_nil⟩
  · rintro s action _ ⟨hsound, hmisses⟩ rfl hin
    exact ⟨hsound.step action, hmisses.step hsound hin⟩
  · rintro s action _ ⟨hsound, -⟩ rfl hlate
    exact EventSubscriber.not_missesNothing hsound hlate

/-- Both streams are polled while items are waiting for them. -/
theorem missesNothing_iff_sample : ∃ ts s, Run EventSubscriber.Step sampleReports ts s ∧
    ts.map (·.label) = sampleActions ∧ s.streams.map (·.yielded.length) = [2, 1] ∧
    (∀ t ∈ ts, t.before.InTime t.label) ∧ ∀ s ∈ states sampleReports ts, s.MissesNothing := by
  have hfew : (sampleActions.foldlM (fun s action =>
      if s.sent.length ≤ 32 then some (EventSubscriber.step s action) else none) sampleReports).map
      (fun s => s.streams.map (·.yielded.length)) = some [2, 1] := by rfl
  obtain ⟨s, hs, hyielded⟩ := Option.map_eq_some_iff.mp hfew
  obtain ⟨ts, hsteps, hlabels, hfew⟩ := Run.of_steps_if hs
  have hrun : Run EventSubscriber.Step sampleReports ts s :=
    hsteps.mono fun _ _ _ h => (Option.some.inj h).symm
  have hintime : ∀ t ∈ ts, t.before.InTime t.label := by
    intro t ht
    cases hlabel : t.label with
    | pollNext i => exact fun _ next _ _ => (hfew t ht).trans (Nat.le_add_left 32 next)
    | _ => trivial
  exact ⟨ts, s, hrun, hlabels, hyielded, hintime, (missesNothing_iff hrun).mpr hintime⟩

end CommonDataLayer.Api
