import Maof.Transport.FailureHandling

/-!
# Poison messages

An adapter reads a message before it enters the guard that isolates the handler.
What leaves the adapter is therefore decided by the record alone, but for SQS,
which turns a backoff into an integer on its way out.
-/

namespace Maof
namespace Transport

open Data (Dict)
open Effects (Act Prog)

variable {c : Codec} {s : Surroundings} {w : Ledger}

/-! ## Readable records -/

/-- The attempt header, if there is one, spells an integer. -/
def Numbered (c : Codec) (headers : Dict String String) : Prop :=
  (c.numerals.parseInt ((Dict.get headers attemptHeader).getD "1").toList).isSome

theorem numbered_iff {headers : Dict String String} : Numbered c headers ↔ ∃ attempt, attemptOf c headers = .ok attempt := by
  unfold Numbered attemptOf Numerals.int
  cases c.numerals.parseInt ((Dict.get headers attemptHeader).getD "1").toList with
  | some attempt => exact ⟨fun _ => ⟨attempt, rfl⟩, fun _ => rfl⟩
  | none =>
      constructor
      · intro spelled
        cases spelled
      · rintro ⟨attempt, read⟩
        cases read

/-- A text that `base64.b64decode` takes. -/
def Base64Text (text : String) : Prop :=
  (∀ ch ∈ text.toList, ch.toNat < 128) ∧ ∃ bytes, Data.Base64.decode text.toList = .ok bytes

theorem b64decode_ok_iff {value : Json} : (∃ bytes, b64decode value = .ok bytes) ↔ ∃ text, value = .str text ∧ Base64Text text := by
  constructor
  · rintro ⟨bytes, decoded⟩
    cases value with
    | str text =>
        rw [b64decode] at decoded
        by_cases ascii : (text.toList.all fun ch => decide (ch.toNat < 128)) = true
        · rw [if_pos ascii] at decoded
          use text, rfl
          constructor
          · intro ch member
            exact of_decide_eq_true (List.all_eq_true.mp ascii ch member)
          · cases found : Data.Base64.decode text.toList with
            | ok read => exact ⟨read, rfl⟩
            | error e =>
                rw [found] at decoded
                cases e <;> cases decoded
        · rw [if_neg ascii] at decoded
          cases decoded
    | null => cases decoded
    | bool b => cases decoded
    | int n => cases decoded
    | float x => cases decoded
    | arr xs => cases decoded
    | obj fields => cases decoded
  · rintro ⟨text, rfl, ascii, bytes, found⟩
    have all_ascii : (text.toList.all fun ch => decide (ch.toNat < 128)) = true := by
      rw [List.all_eq_true]
      intro ch member
      exact decide_eq_true (ascii ch member)
    use bytes
    rw [b64decode, if_pos all_ascii, found]

/-- The headers of a wire envelope, as text. -/
def textHeaders (c : Codec) (headers : Dict String Json) : Dict String String :=
  Dict.update [] (headers.map fun kv => (kv.1, String.ofList (Template.pyStr c.unicode kv.2)))

/-- A record with the shape that `pack` gives it. -/
structure Wrapped (c : Codec) (raw : Bytes) (fields headers : Dict String Json) : Prop where
  loads : c.loads raw = .ok (.obj fields)
  body : ∃ text, Dict.get fields "body" = some (.str text) ∧ Base64Text text
  items : (Dict.get fields "headers").getD (.obj []) = .obj headers
  attempt : Numbered c (textHeaders c headers)

/-- A record that is read. -/
def Readable (c : Codec) (raw : Bytes) : Prop := ∃ fields headers, Wrapped c raw fields headers

theorem received_ok_iff {raw : Bytes} : (∃ read, received c raw = .ok read) ↔ Readable c raw := by
  constructor
  · rintro ⟨read, received⟩
    obtain ⟨m, unpacked, received⟩ := ok_of_bind received
    obtain ⟨attempt, number, _⟩ := ok_of_bind received
    obtain ⟨value, loads, unpacked⟩ := ok_of_bind unpacked
    obtain ⟨field, subscript, unpacked⟩ := ok_of_bind unpacked
    obtain ⟨body, decoded, unpacked⟩ := ok_of_bind unpacked
    obtain ⟨headers, items, unpacked⟩ := ok_of_bind unpacked
    cases unpacked
    obtain ⟨text, rfl, encoded⟩ := b64decode_ok_iff.mp ⟨body, decoded⟩
    cases value with
    | obj fields =>
        use fields, headers
        refine ⟨loads, ⟨text, ?_, encoded⟩, ?_, numbered_iff.mpr ⟨attempt, number⟩⟩
        · cases found : Dict.get fields "body" with
          | some value =>
              rw [Json.subscript, found] at subscript
              cases subscript
              rfl
          | none =>
              rw [Json.subscript, found] at subscript
              cases subscript
        · rw [Json.get?] at items
          cases found : (Dict.get fields "headers").getD (.obj []) <;> rw [found] at items <;> cases items
          rfl
    | null => cases subscript
    | bool b => cases subscript
    | int n => cases subscript
    | float x => cases subscript
    | str s => cases subscript
    | arr xs => cases subscript
  · rintro ⟨fields, headers, record⟩
    obtain ⟨text, field, encoded⟩ := record.body
    obtain ⟨body, decoded⟩ := b64decode_ok_iff.mpr ⟨text, rfl, encoded⟩
    obtain ⟨attempt, number⟩ := numbered_iff.mp record.attempt
    have subscript : (Json.obj fields).subscript "body" = .ok (.str text) := by
      rw [Json.subscript, field]
    have items : dictItems (((Json.obj fields).get? "headers").getD (.obj [])) = .ok headers := by
      rw [Json.get?, record.items, dictItems]
    simp only [received, unpack, record.loads, subscript, decoded, items, bind, Except.bind, pure, Except.pure]
    rw [textHeaders] at number
    rw [number]
    exact ⟨_, rfl⟩

/-! ## One delivery -/

/-- What an adapter hands to the handler. -/
def Adapter.reads (c : Codec) (queue : String) (d : Delivery) : Adapter → Except Exn IncomingMessage
  | .inMemory => do
      return incoming queue d.native (← attemptOf c d.native.headers)
  | .rabbitmq => do
      return { incoming queue d.native (← attemptOf c d.native.headers) with redelivered := d.redelivered }
  | _ => do
      let (m, attempt) ← received c d.raw
      return incoming queue m attempt

/-- The record, or the headers of a message that carries its own, can be read. -/
def Adapter.Reads (c : Codec) (d : Delivery) : Adapter → Prop
  | .inMemory | .rabbitmq => Numbered c d.native.headers
  | _ => Readable c d.raw

theorem ok_bind_iff {α β : Type} {r : Except Exn α} {f : α → β} :
    (∃ b, (do return f (← r) : Except Exn β) = .ok b) ↔ ∃ a, r = .ok a := by
  cases r with
  | ok a => exact ⟨fun _ => ⟨a, rfl⟩, fun _ => ⟨f a, rfl⟩⟩
  | error e =>
      constructor
      · rintro ⟨b, read⟩
        cases read
      · rintro ⟨a, read⟩
        cases read

theorem reads_ok_iff {a : Adapter} {queue : String} {d : Delivery} : (∃ m, a.reads c queue d = .ok m) ↔ a.Reads c d := by
  cases a with
  | inMemory => exact ok_bind_iff.trans numbered_iff.symm
  | rabbitmq => exact ok_bind_iff.trans numbered_iff.symm
  | kafka => exact ok_bind_iff.trans received_ok_iff
  | redis => exact ok_bind_iff.trans received_ok_iff
  | sqs => exact ok_bind_iff.trans received_ok_iff

/-- SQS sends a message again after an integer of seconds. -/
def Adapter.Reschedules (c : Codec) (s : Surroundings) (d : Delivery) (a : Adapter) : Prop :=
  a = .sqs → ∀ m delay, a.reads c s.queue d = .ok m → s.outcome m ≠ .ok () →
    s.topology.delay m.attempt = some delay → ∃ seconds, delay.truncate = .ok seconds

def BrokerOp.handles : BrokerOp → Bool
  | .handle _ => true
  | _ => false

/-- The piece hands these messages to the handler, and ends like this. -/
def Ends (c : Codec) (s : Surroundings) (m : BrokerM Unit) (given : List IncomingMessage) (r : Except Exn Unit) : Prop :=
  ∀ w, ∃ w', (m ()).eval (Ledger.perform c s) w = ((r, ()), w') ∧ w'.handled = w.handled ++ given

namespace Ends

variable {first rest after : BrokerM Unit} {branch : Exn → BrokerM Unit} {given given' : List IncomingMessage}
  {m : IncomingMessage} {r : Except Exn Unit} {e : Exn}

theorem nothing : Ends c s (return ()) [] (.ok ()) := by
  intro w
  exact ⟨w, rfl, (List.append_nil _).symm⟩

/-- No call fails but that of the handler. -/
theorem ofCall {op : BrokerOp} (other : op.handles = false := by rfl) : Ends c s (brokerCall op) [] (.ok ()) := by
  intro w
  have reply : (brokerCall op ()).eval (Ledger.perform c s) w = (((w.perform c s op).2, ()), (w.perform c s op).1) := rfl
  have performed : (w.perform c s op).2 = .ok () ∧ (w.perform c s op).1.handled = w.handled := by
    cases op with
    | handle m => cases other
    | reject =>
        rw [Ledger.perform, Ledger.reject]
        cases s.topology.dlq with
        | some dlq => exact ⟨rfl, rfl⟩
        | none => exact ⟨rfl, rfl⟩
    | _ => exact ⟨rfl, rfl⟩
  rw [performed.1] at reply
  exact ⟨_, reply, by rw [performed.2, List.append_nil]⟩

theorem seq (before : Ends c s first given (.ok ())) (then_ : Ends c s rest given' r) :
    Ends c s (do first; rest) (given ++ given') r := by
  intro w
  obtain ⟨between, returns, handled⟩ := before w
  obtain ⟨w', ends, handled'⟩ := then_ between
  use w'
  constructor
  · rw [Act.eval_bind, returns]
    exact ends
  · rw [handled', handled, List.append_assoc]

theorem stopped (before : Ends c s first given (.error e)) : Ends c s (do first; rest) given (.error e) := by
  intro w
  obtain ⟨w', raises, handled⟩ := before w
  use w'
  constructor
  · rw [Act.eval_bind, raises]
  · exact handled

theorem computed {α : Type} {x : Except Exn α} {a : α} {k : α → BrokerM Unit} (value : x = .ok a)
    (then_ : Ends c s (k a) given r) : Ends c s (do k (← Act.ofExcept (S := BrokerSig) x)) given r := by
  intro w
  rw [Act.eval_ofExcept_bind, value]
  exact then_ w

theorem uncomputed {α : Type} {x : Except Exn α} {k : α → BrokerM Unit} (value : x = .error e) :
    Ends c s (do k (← Act.ofExcept (S := BrokerSig) x)) [] (.error e) := by
  intro w
  use w
  rw [Act.eval_ofExcept_bind, value]
  exact ⟨rfl, (List.append_nil _).symm⟩

/-- A guarded handler that returns. -/
theorem returned (returns : s.outcome m = .ok ()) (then_ : Ends c s after [] (.ok ())) :
    Ends c s (Act.tryCatch (do brokerCall (.handle m); after) branch) [m] (.ok ()) := by
  intro w
  have reply : (w.perform c s (.handle m)).2 = .ok () := returns
  obtain ⟨w', ends, handled⟩ := then_ (w.perform c s (.handle m)).1
  use w'
  rw [Act.eval_tryCatch, Act.eval_await_ok reply, ends]
  exact ⟨rfl, handled.trans (List.append_nil _)⟩

/-- A guarded handler that raises: the branch for failures decides. -/
theorem raised (raises : s.outcome m = .error e) (then_ : Ends c s (branch e) [] r) :
    Ends c s (Act.tryCatch (do brokerCall (.handle m); after) branch) [m] r := by
  intro w
  have reply : (w.perform c s (.handle m)).2 = .error e := raises
  obtain ⟨w', ends, handled⟩ := then_ (w.perform c s (.handle m)).1
  use w'
  rw [Act.eval_tryCatch, Act.eval_await_error reply]
  exact ⟨ends, handled.trans (List.append_nil _)⟩

/-- A guard whose branch for failures cannot raise. -/
theorem guarded (then_ : Ends c s after [] (.ok ())) (recovers : ∀ e, Ends c s (branch e) [] (.ok ())) :
    Ends c s (Act.tryCatch (do brokerCall (.handle m); after) branch) [m] (.ok ()) := by
  cases outcome : s.outcome m with
  | ok value => exact returned outcome then_
  | error e => exact raised outcome (recovers e)

theorem guarded_handler (recovers : ∀ e, Ends c s (branch e) [] (.ok ())) :
    Ends c s (Act.tryCatch (brokerCall (.handle m)) branch) [m] (.ok ()) := by
  rw [handler_alone]
  exact guarded nothing recovers

end Ends

section adapters

variable {d : Delivery} {m : IncomingMessage} {attempt : Int}

/-- The branch for failures, if nothing in it can raise. -/
theorem ends_branch {again : PyFloat → BrokerM Unit} {dead : String → BrokerM Unit}
    (retries : ∀ delay, s.topology.delay attempt = some delay → Ends c s (again delay) [] (.ok ()))
    (buries : ∀ dlq, Ends c s (dead dlq) [] (.ok ())) :
    Ends c s (match s.topology.delay attempt with
      | some delay => again delay
      | none => match s.topology.dlq with
          | some dlq => dead dlq
          | none => return ()) [] (.ok ()) := by
  cases delay : s.topology.delay attempt with
  | some seconds => exact retries seconds delay
  | none =>
      cases s.topology.dlq with
      | some dlq => exact buries dlq
      | none => exact .nothing

theorem error_of_bind {α β : Type} {r : Except Exn α} {f : α → β} {e : Exn}
    (raises : (do return f (← r) : Except Exn β) = .error e) : r = .error e := by
  cases r with
  | ok a => cases raises
  | error e' =>
      cases raises
      rfl

/-- What is raised before the handler leaves the adapter. -/
theorem deliver_unread {a : Adapter} {e : Exn} (unread : a.reads c s.queue d = .error e) :
    Ends c s (a.deliver c s.topology s.queue d) [] (.error e) := by
  have popped : Ends c s (brokerCall .popleft) [] (.ok ()) := .ofCall
  cases a with
  | inMemory => exact popped.seq (.uncomputed (error_of_bind unread))
  | rabbitmq => exact .uncomputed (error_of_bind unread)
  | sqs => exact .uncomputed (error_of_bind unread)
  | kafka =>
      have dispatch : Ends c s (KafkaBroker.dispatch c s.topology s.queue d.raw) [] (.error e) :=
        .uncomputed (error_of_bind unread)
      exact dispatch.stopped
  | redis =>
      have dispatch : Ends c s (RedisStreamsBroker.dispatch c s.topology s.queue d.raw) [] (.error e) :=
        .uncomputed (error_of_bind unread)
      exact dispatch.stopped

/-- A message that was read goes to the handler, and whatever the handler does stays in the
adapter. -/
theorem deliver_read {a : Adapter} (read : a.reads c s.queue d = .ok m) (sent : a.Reschedules c s d) :
    Ends c s (a.deliver c s.topology s.queue d) [m] (.ok ()) := by
  have popped : Ends c s (brokerCall .popleft) [] (.ok ()) := .ofCall
  cases a with
  | inMemory =>
      obtain ⟨attempt, number, same⟩ := ok_of_bind read
      cases same
      have failed : ∀ e : Exn, Ends c s (InMemoryBroker.onFailure s.topology s.queue d.native attempt) [] (.ok ()) :=
        fun _ => ends_branch (fun _ _ => .ofCall) fun _ => .ofCall
      exact popped.seq (.computed number (.guarded_handler failed))
  | kafka =>
      obtain ⟨⟨message, attempt⟩, received, same⟩ := ok_of_bind read
      cases same
      have dispatch : Ends c s (KafkaBroker.dispatch c s.topology s.queue d.raw) [incoming s.queue message attempt] (.ok ()) :=
        .computed received (.guarded_handler fun _ =>
          ends_branch (fun _ _ => .seq .ofCall .ofCall) fun _ => .ofCall)
      have committed : Ends c s (brokerCall .commit) [] (.ok ()) := .ofCall
      exact dispatch.seq committed
  | redis =>
      obtain ⟨⟨message, attempt⟩, received, same⟩ := ok_of_bind read
      cases same
      have dispatch : Ends c s (RedisStreamsBroker.dispatch c s.topology s.queue d.raw)
          [incoming s.queue message attempt] (.ok ()) :=
        .computed received (.guarded_handler fun _ =>
          ends_branch (fun _ _ => .ofCall) fun _ => .ofCall)
      have removed : Ends c s (brokerCall .lrem) [] (.ok ()) := .ofCall
      exact dispatch.seq removed
  | sqs =>
      obtain ⟨⟨message, attempt⟩, received, same⟩ := ok_of_bind read
      cases same
      have deleted : Ends c s (brokerCall .deleteMessage) [] (.ok ()) := .ofCall
      cases outcome : s.outcome (incoming s.queue message attempt) with
      | ok value => exact .computed received (.returned outcome deleted)
      | error e =>
          have failed : s.outcome (incoming s.queue message attempt) ≠ .ok () := by
            rw [outcome]
            nofun
          apply Ends.computed received
          apply Ends.raised outcome
          apply ends_branch
          · intro delay known
            obtain ⟨seconds, value⟩ := sent rfl _ delay read failed known
            exact .computed value (.seq .ofCall deleted)
          · intro dlq
            exact .seq .ofCall deleted
  | rabbitmq =>
      obtain ⟨attempt, number, same⟩ := ok_of_bind read
      cases same
      apply Ends.computed number
      apply Ends.guarded
      · exact .ofCall
      · intro e
        cases s.topology.delay attempt with
        | none => exact .ofCall
        | some delay =>
            cases s.topology.retryQueues[(attempt - 1).toNat]? with
            | none => exact .ofCall
            | some retryQueue => exact .seq .ofCall .ofCall

/-- The one way an exception gets past the guard. -/
theorem deliver_overflows {delay : PyFloat} {e : Exn} (read : Adapter.sqs.reads c s.queue d = .ok m)
    (failed : s.outcome m ≠ .ok ()) (known : s.topology.delay m.attempt = some delay)
    (infinite : delay.truncate = .error e) : Ends c s (Adapter.sqs.deliver c s.topology s.queue d) [m] (.error e) := by
  obtain ⟨⟨message, attempt⟩, received, same⟩ := ok_of_bind read
  cases same
  cases outcome : s.outcome (incoming s.queue message attempt) with
  | ok value => exact absurd outcome failed
  | error e' =>
      have attempted : s.topology.delay attempt = some delay := known
      apply Ends.computed received
      apply Ends.raised outcome
      simp only [attempted]
      exact .uncomputed infinite

end adapters

/-! ## The consumer -/

/-- One delivery in the consumer's loop. RabbitMQ gives each to a callback of its own, whose
exception is nobody else's. -/
def Adapter.turn (c : Codec) (t : Topology) (queue : String) (d : Delivery) (a : Adapter) : BrokerM Unit :=
  match a with
  | .rabbitmq => Act.tryCatch (a.deliver c t queue d) fun _ => return ()
  | _ => a.deliver c t queue d

/-- The deliveries of a queue, one after the other. -/
def Adapter.consume (c : Codec) (t : Topology) (queue : String) (a : Adapter) : List Delivery → BrokerM Unit
  | [] => return ()
  | d :: ds => do
      a.turn c t queue d
      a.consume c t queue ds

/-- What reaches the handler of these deliveries. -/
def Adapter.handed (c : Codec) (s : Surroundings) (ds : List Delivery) (a : Adapter) : List IncomingMessage :=
  ((a.consume c s.topology s.queue ds ()).eval (Ledger.perform c s) ({} : Ledger)).2.handled

section consumer

variable {a : Adapter} {d : Delivery} {ds : List Delivery} {given : List IncomingMessage} {e : Exn}

theorem turn_returns (ends : Ends c s (a.deliver c s.topology s.queue d) given (.ok ())) :
    Ends c s (a.turn c s.topology s.queue d) given (.ok ()) := by
  cases a with
  | rabbitmq =>
      intro w
      obtain ⟨w', returns, handled⟩ := ends w
      use w'
      rw [Adapter.turn, Act.eval_tryCatch, returns]
      exact ⟨rfl, handled⟩
  | _ => exact ends

theorem handed_of_ends {r : Except Exn Unit} (ends : Ends c s (a.consume c s.topology s.queue ds) given r) :
    a.handed c s ds = given := by
  obtain ⟨w, ended, handled⟩ := ends {}
  rw [Adapter.handed, ended, handled]
  rfl

theorem raised_of_ends {r : Except Exn Unit} (ends : Ends c s (a.deliver c s.topology s.queue d) given r) :
    (a.decision c s d).raised = none ↔ r = .ok () := by
  obtain ⟨w, ended, _⟩ := ends {}
  simp only [Adapter.decision]
  rw [ended]
  cases r with
  | ok value => exact ⟨fun _ => rfl, fun _ => rfl⟩
  | error e =>
      constructor
      · intro absurd
        cases absurd
      · intro absurd
        cases absurd

/-- A delivery raises nothing exactly if its record is read, and SQS can say when to send it again. -/
theorem raised_none_iff : (a.decision c s d).raised = none ↔ a.Reads c d ∧ a.Reschedules c s d := by
  constructor
  · intro quiet
    cases read : a.reads c s.queue d with
    | error e =>
        have raises := (raised_of_ends (deliver_unread read)).mp quiet
        cases raises
    | ok m =>
        constructor
        · exact reads_ok_iff.mp ⟨m, read⟩
        · rintro rfl m' delay read' failed known
          cases value : delay.truncate with
          | ok seconds => exact ⟨seconds, rfl⟩
          | error e =>
              have raises := (raised_of_ends (deliver_overflows read' failed known value)).mp quiet
              cases raises
  · rintro ⟨reads, sent⟩
    obtain ⟨m, read⟩ := (@reads_ok_iff _ _ s.queue _).mpr reads
    exact (raised_of_ends (deliver_read read sent)).mpr rfl

/-- Records that are all read come to the handler in their order, and what is behind them after
them. -/
theorem consume_before {behind : List Delivery} {r : Except Exn Unit} (fine : ∀ d ∈ ds, a.Reads c d ∧ a.Reschedules c s d)
    (after : Ends c s (a.consume c s.topology s.queue behind) given r) :
    ∃ first, (first.map .ok = ds.map fun d => a.reads c s.queue d) ∧
      Ends c s (a.consume c s.topology s.queue (ds ++ behind)) (first ++ given) r := by
  induction ds with
  | nil => exact ⟨[], rfl, after⟩
  | cons d ds ih =>
      obtain ⟨reads, sent⟩ := fine d List.mem_cons_self
      obtain ⟨m, read⟩ := (@reads_ok_iff _ _ s.queue _).mpr reads
      obtain ⟨first, same, ends⟩ := ih fun d member => fine d (List.mem_cons_of_mem _ member)
      use m :: first
      constructor
      · rw [List.map_cons, List.map_cons, read, same]
      · exact (turn_returns (deliver_read read sent)).seq ends

theorem handed_all (fine : ∀ d ∈ ds, a.Reads c d ∧ a.Reschedules c s d) :
    (a.handed c s ds).map .ok = ds.map fun d => a.reads c s.queue d := by
  obtain ⟨first, same, ends⟩ := @consume_before _ _ _ _ _ [] _ fine .nothing
  rw [List.append_nil, List.append_nil] at ends
  rw [handed_of_ends ends]
  exact same

/-- Nothing behind a record that is not read reaches the handler, RabbitMQ's apart. -/
theorem handed_stops {behind : List Delivery} (loop : a ≠ .rabbitmq)
    (fine : ∀ d ∈ ds, a.Reads c d ∧ a.Reschedules c s d) (unread : ¬ a.Reads c d) :
    (a.handed c s (ds ++ d :: behind)).map .ok = ds.map fun d => a.reads c s.queue d := by
  have stops : ∃ e, Ends c s (a.consume c s.topology s.queue (d :: behind)) [] (.error e) := by
    cases read : a.reads c s.queue d with
    | ok m => exact absurd (reads_ok_iff.mp ⟨m, read⟩) unread
    | error e =>
        use e
        cases a with
        | rabbitmq => exact absurd rfl loop
        | _ => exact (deliver_unread read).stopped
  obtain ⟨e, stopped⟩ := stops
  obtain ⟨first, same, ends⟩ := consume_before fine stopped
  rw [handed_of_ends ends, List.append_nil]
  exact same

/-- A record that is not read stays with its broker, to be delivered again; the in-memory queue has
lost it. -/
theorem unread_settled (unread : a.reads c s.queue d = .error e) :
    a.decision c s d = { raised := some e, settled := decide (a = .inMemory), enqueued := [] } := by
  cases a with
  | inMemory =>
      have number := error_of_bind unread
      simp only [Adapter.decision, Adapter.deliver, InMemoryBroker.deliver]
      rw [Act.eval_await_ok rfl, Act.eval_ofExcept_bind, number]
      rfl
  | kafka =>
      have received := error_of_bind unread
      simp only [Adapter.decision, Adapter.deliver, KafkaBroker.deliver, KafkaBroker.dispatch]
      rw [Act.eval_bind, Act.eval_ofExcept_bind, received]
      rfl
  | redis =>
      have received := error_of_bind unread
      simp only [Adapter.decision, Adapter.deliver, RedisStreamsBroker.deliver, RedisStreamsBroker.dispatch]
      rw [Act.eval_bind, Act.eval_ofExcept_bind, received]
      rfl
  | sqs =>
      have received := error_of_bind unread
      simp only [Adapter.decision, Adapter.deliver, SQSBroker.dispatch]
      rw [Act.eval_ofExcept_bind, received]
      rfl
  | rabbitmq =>
      have number := error_of_bind unread
      simp only [Adapter.decision, Adapter.deliver, RabbitMQBroker.handleDelivery]
      rw [Act.eval_ofExcept_bind, number]
      rfl

/-- Every record is delivered and raises nothing exactly if each of them is read, and SQS can say
when to send it again. -/
theorem consumer_survives_iff (a : Adapter) (c : Codec) (s : Surroundings) (ds : List Delivery) :
    ((∀ d ∈ ds, (a.decision c s d).raised = none) ∧
      (a.handed c s ds).map .ok = ds.map fun d => a.reads c s.queue d) ↔
    ∀ d ∈ ds, a.Reads c d ∧ a.Reschedules c s d := by
  constructor
  · rintro ⟨quiet, _⟩ d member
    exact raised_none_iff.mp (quiet d member)
  · intro fine
    constructor
    · intro d member
      exact raised_none_iff.mpr (fine d member)
    · exact handed_all fine

end consumer

/-- No record stops its consumer. -/
def ConsumersSurvive : Prop :=
  ∀ (a : Adapter) (c : Codec) (s : Surroundings) (ds : List Delivery),
    (∀ d ∈ ds, (a.decision c s d).raised = none) ∧
      (a.handed c s ds).map .ok = ds.map fun d => a.reads c s.queue d

open Maof.Sample in
/-- A record of Kafka that is no JSON, and a header that is no number. -/
theorem poison_stops : ¬ ConsumersSurvive ∧ ¬ Adapter.kafka.Reads codec { raw := [], native := greeting } ∧
    ¬ Adapter.inMemory.Reads codec
      { raw := greetingText, native := { greeting with headers := [(attemptHeader, "two")] } } := by
  have unreadable : ¬ Adapter.kafka.Reads codec { raw := [], native := greeting } := by
    rintro ⟨fields, headers, record⟩
    have refused : codec.loads [] = .error (.valueError "Expecting value") :=
      (if_neg (by decide +kernel)).trans (if_neg (by decide +kernel))
    rw [record.loads] at refused
    cases refused
  constructor
  · intro survive
    have quiet := (survive .kafka codec (tasksQueue.surroundings {} greeting (.ok ())) [{ raw := [], native := greeting }]).1
    exact unreadable (raised_none_iff.mp (quiet _ List.mem_cons_self)).1
  · constructor
    · exact unreadable
    · intro spelled
      have number : codec.numerals.parseInt ['t', 'w', 'o'] = none := by
        decide +kernel
      have header : Dict.get [(attemptHeader, "two")] attemptHeader = some "two" := by
        decide
      simp [Adapter.Reads, Numbered, header, number] at spelled

end Transport
end Maof
