import Maof.Orchestrator.System
import Maof.Transport.Brokers

/-!
# Failure handling across the brokers

On one delivery every adapter puts the same messages into the same queues. The
adapters differ in whether they are done with it: SQS deletes a message in the
branch that disposes of it, and a message with neither a retry nor a dead-letter
queue left comes to no such branch.
-/

namespace Maof
namespace Transport

open Data (Dict)
open Effects (Act Prog)

variable {c : Codec} {s : Surroundings} {attempt : Int}

/-! ## What a piece of an adapter disposes of -/

/-- The piece returns, acknowledges or not, and puts these messages into queues. -/
def Disposes (c : Codec) (s : Surroundings) (m : BrokerM Unit) (settled : Bool)
    (enqueued : List (String × Except Exn Stored)) : Prop :=
  ∀ w, ∃ w', (m ()).eval (Ledger.perform c s) w = ((.ok (), ()), w') ∧
    w'.settled = (w.settled || settled) ∧ w'.enqueued = w.enqueued ++ enqueued

namespace Disposes

variable {first rest : BrokerM Unit} {b b' : Bool} {put put' : List (String × Except Exn Stored)} {op : BrokerOp}

theorem nothing : Disposes c s (return ()) false [] := by
  intro w
  exact ⟨w, rfl, (Bool.or_false _).symm, (List.append_nil _).symm⟩

theorem ofCall (answers : ∀ w : Ledger, (w.perform c s op).2 = .ok ())
    (settles : ∀ w : Ledger, (w.perform c s op).1.settled = (w.settled || b))
    (puts : ∀ w : Ledger, (w.perform c s op).1.enqueued = w.enqueued ++ put) : Disposes c s (brokerCall op) b put := by
  intro w
  have reply : (brokerCall op ()).eval (Ledger.perform c s) w = (((w.perform c s op).2, ()), (w.perform c s op).1) := rfl
  rw [answers] at reply
  exact ⟨_, reply, settles w, puts w⟩

/-- A call that puts one message. -/
theorem putting {queue : String} {m : Except Exn Stored}
    (puts : ∀ w : Ledger, w.perform c s op = (w.enqueue queue m, .ok ())) :
    Disposes c s (brokerCall op) false [(queue, m)] := by
  apply ofCall
  · intro w
    rw [puts]
  · intro w
    rw [puts, Bool.or_false]
    rfl
  · intro w
    rw [puts]
    rfl

/-- A call that acknowledges. -/
theorem settling (settles : ∀ w : Ledger, w.perform c s op = ({ w with settled := true }, .ok ())) :
    Disposes c s (brokerCall op) true [] := by
  apply ofCall
  · intro w
    rw [settles]
  · intro w
    rw [settles, Bool.or_true]
  · intro w
    rw [settles, List.append_nil]

theorem sleeping {delay : PyFloat} : Disposes c s (brokerCall (.sleep delay)) false [] := by
  apply ofCall
  · intro w
    rfl
  · intro w
    exact (Bool.or_false _).symm
  · intro w
    exact (List.append_nil _).symm

theorem seq (before : Disposes c s first b put) (after : Disposes c s rest b' put') :
    Disposes c s (do first; rest) (b || b') (put ++ put') := by
  intro w
  obtain ⟨between, returns, settled, enqueued⟩ := before w
  obtain ⟨w', returns', settled', enqueued'⟩ := after between
  use w'
  constructor
  · rw [Act.eval_bind, returns]
    exact returns'
  · rw [settled', settled, Bool.or_assoc, enqueued', enqueued, List.append_assoc]
    exact ⟨rfl, rfl⟩

theorem computed {α : Type} {r : Except Exn α} {a : α} {k : α → BrokerM Unit} (value : r = .ok a)
    (after : Disposes c s (k a) b put) : Disposes c s (do k (← Act.ofExcept (S := BrokerSig) r)) b put := by
  intro w
  rw [Act.eval_ofExcept_bind, value]
  exact after w

end Disposes

/-- The messages a handler's outcome puts into queues. -/
def Surroundings.disposed (s : Surroundings) (attempt : Int) : Except Exn Unit → List (String × Except Exn Stored)
  | .ok () => []
  | .error _ => s.moved attempt

/-- Whether an adapter is done with a message, by how the handler ended. -/
def settledBy (returned failed : Bool) : Except Exn Unit → Bool
  | .ok () => returned
  | .error _ => failed

theorem settledBy_self (b : Bool) (outcome : Except Exn Unit) : settledBy b b outcome = b := by
  cases outcome with
  | ok value => rfl
  | error e => rfl

/-- A handler under the guard of an adapter: done with the message on its return, and in the branch
for failures otherwise. -/
theorem Disposes.guarded {m : IncomingMessage} {outcome : Except Exn Unit} {after branch : BrokerM Unit} {b b' : Bool}
    (ends : s.outcome m = outcome) (returned : Disposes c s after b []) (failed : Disposes c s branch b' (s.moved attempt)) :
    Disposes c s (Act.tryCatch (do brokerCall (.handle m); after) fun _ => branch)
      (settledBy b b' outcome) (s.disposed attempt outcome) := by
  intro w
  have reply : (w.perform c s (.handle m)).2 = outcome := ends
  cases outcome with
  | ok value =>
      obtain ⟨w', returns, rest⟩ := returned (w.perform c s (.handle m)).1
      use w'
      rw [Act.eval_tryCatch, Act.eval_await_ok reply, returns]
      exact ⟨rfl, rest⟩
  | error e =>
      obtain ⟨w', returns, rest⟩ := failed (w.perform c s (.handle m)).1
      use w'
      rw [Act.eval_tryCatch, Act.eval_await_error reply]
      exact ⟨returns, rest⟩

theorem handler_alone (m : IncomingMessage) :
    brokerCall (.handle m) = (do brokerCall (.handle m); return () : BrokerM Unit) := by
  funext u
  apply congrArg (Prog.call (S := BrokerSig) (BrokerOp.handle m))
  funext r
  cases r with
  | ok value => rfl
  | error e => rfl

/-- A guard around the handler alone. -/
theorem Disposes.handler {m : IncomingMessage} {outcome : Except Exn Unit} {branch : BrokerM Unit}
    (ends : s.outcome m = outcome) (failed : Disposes c s branch false (s.moved attempt)) :
    Disposes c s (Act.tryCatch (brokerCall (.handle m)) fun _ => branch) false (s.disposed attempt outcome) := by
  rw [handler_alone]
  have guarded := Disposes.guarded ends .nothing failed
  rwa [settledBy_self] at guarded

theorem decision_of_disposes {a : Adapter} {d : Delivery} {b : Bool} {put : List (String × Except Exn Stored)}
    (disposes : Disposes c s (a.deliver c s.topology s.queue d) b put) :
    a.decision c s d = { raised := none, settled := b, enqueued := put } := by
  obtain ⟨w, returns, settled, enqueued⟩ := disposes {}
  simp only [Adapter.decision]
  rw [returns, settled, enqueued]
  rfl

/-! ## A message on its way -/

/-- Every broker hands over the same message, and `json` gives it back under the number of this
attempt and of the next. -/
structure Arrives (c : Codec) (message : Stored) (raw : Bytes) (attempt : Int) : Prop where
  read : unpack c raw = .ok message
  number : attemptOf c message.headers = .ok attempt
  lossless : ∀ m, m = message ∨ m = message.retried attempt → c.loads (c.dumps (payload m)) = .ok (payload m)

namespace Arrives

variable {message : Stored} {raw : Bytes}

theorem received (arrives : Arrives c message raw attempt) : received c raw = .ok (message, attempt) := by
  simp only [Transport.received, arrives.read, arrives.number, bind, Except.bind, pure, Except.pure]

theorem unpack_same (arrives : Arrives c message raw attempt) : unpack c (pack c message) = .ok message :=
  unpack_pack (nodup_of_unpack arrives.read) (arrives.lossless _ (.inl rfl))

theorem unpack_retried (arrives : Arrives c message raw attempt) :
    unpack c (pack c (message.retried attempt)) = .ok (message.retried attempt) := by
  have distinct : (Dict.keys (message.retried attempt).headers).Nodup :=
    Dict.nodup_set (nodup_of_unpack arrives.read) _ _
  exact unpack_pack distinct (arrives.lossless _ (.inr rfl))

end Arrives

/-! ## A declared queue -/

section topology

variable {p : Platform} {n : Numerals} {q : QueueSpec} {t : Topology}

theorem dlq_of_ensure (made : Topology.ensure p n q = .ok t) : t.dlq = q.dlqName.filter fun name => name ≠ "" := by
  unfold Topology.ensure at made
  split at made
  · cases made
    rfl
  · obtain ⟨policy, _, made⟩ := ok_of_bind made
    cases made
    rfl

/-- A failed attempt is retried while there is a step for it. -/
theorem delay_of_ensure (made : Topology.ensure p n q = .ok t) :
    (t.delay attempt).isSome ↔ 1 ≤ attempt ∧ attempt ≤ q.retrySteps.length := by
  unfold Topology.ensure at made
  split at made
  · next none =>
      cases made
      rw [List.isEmpty_iff] at none
      simp only [Topology.delay, Option.bind_none, Option.isSome_none, none, List.length_nil]
      constructor
      · intro absurd
        cases absurd
      · intro within
        omega
  · obtain ⟨policy, parsed, made⟩ := ok_of_bind made
    cases made
    rw [Topology.delay, Option.bind_some, RetryPolicy.delayForAttempt_isSome, RetryPolicy.length_ofSteps parsed]

/-- A delay is one of the parsed steps. -/
theorem step_of_delay (made : Topology.ensure p n q = .ok t) {delay : PyFloat} (known : t.delay attempt = some delay) :
    ∃ step ∈ q.retrySteps, Retry.parseDuration p n step = .ok delay := by
  unfold Topology.ensure at made
  split at made
  · cases made
    cases known
  · obtain ⟨policy, parsed, made⟩ := ok_of_bind made
    cases made
    obtain ⟨delays, mapped, policy_eq⟩ := ok_of_bind parsed
    cases policy_eq
    rw [Topology.delay, Option.bind_some, RetryPolicy.delayForAttempt] at known
    split at known
    · obtain ⟨inside, at_index⟩ := List.getElem?_eq_some_iff.mp known
      have steps := forall₂_of_mapM mapped
      have within : (attempt - 1).toNat < q.retrySteps.length := by
        rw [steps.length_eq]
        exact inside
      use q.retrySteps[(attempt - 1).toNat]
      constructor
      · exact List.getElem_mem within
      · rw [← at_index]
        exact steps.get within inside
    · cases known

/-- RabbitMQ's topology is the others', with a TTL queue for each step. -/
theorem ensureRabbit_ok (made : Topology.ensureRabbit p n q = .ok t) : ∃ plain, Topology.ensure p n q = .ok plain ∧
    t.policy = plain.policy ∧ t.dlq = plain.dlq ∧ t.retryQueues.length = q.retrySteps.length ∧
    ∀ step ∈ q.retrySteps, ∃ ms, Topology.millis p n step = .ok ms := by
  obtain ⟨plain, ensured, made⟩ := ok_of_bind made
  obtain ⟨lifetimes, mapped, made⟩ := ok_of_bind made
  have lifetime : ∀ step ∈ q.retrySteps, ∃ ms, Topology.millis p n step = .ok ms := by
    intro step member
    obtain ⟨i, inside, at_index⟩ := List.getElem_of_mem member
    have each := forall₂_of_mapM mapped
    rw [← at_index]
    exact ⟨_, each.get inside (each.length_eq ▸ inside)⟩
  have counted : ∀ name : Nat → String, ((List.range q.retrySteps.length).map name).length = q.retrySteps.length := by
    intro name
    rw [List.length_map, List.length_range]
  split at made
  · obtain ⟨_, _, made⟩ := ok_of_bind made
    cases made
    exact ⟨plain, ensured, rfl, rfl, counted _, lifetime⟩
  · cases made
    exact ⟨plain, ensured, rfl, rfl, counted _, lifetime⟩

end topology

/-! ## One adapter at a time -/

section adapters

variable {d : Delivery} {outcome : Except Exn Unit}

/-- The branch for failures, whatever it calls to put a message. -/
theorem disposes_branch {again : PyFloat → BrokerM Unit} {dead : String → BrokerM Unit} {b : Bool}
    (retries : ∀ delay, s.topology.delay attempt = some delay →
      Disposes c s (again delay) b [(s.queue, .ok (s.message.retried attempt))])
    (buries : ∀ dlq, s.topology.dlq = some dlq → Disposes c s (dead dlq) b [(dlq, .ok s.message)]) :
    Disposes c s (match s.topology.delay attempt with
      | some delay => again delay
      | none => match s.topology.dlq with
          | some dlq => dead dlq
          | none => return ()) (b && ((s.topology.delay attempt).isSome || s.topology.dlq.isSome)) (s.moved attempt) := by
  rw [Surroundings.moved]
  cases delay : s.topology.delay attempt with
  | some seconds => simpa using retries seconds delay
  | none =>
      cases dlq : s.topology.dlq with
      | some name => simpa using buries name dlq
      | none => simpa using Disposes.nothing

/-- The in-memory broker has the message off its queue before the handler sees it. -/
theorem inMemory_decision (native : d.native = s.message) (arrives : Arrives c s.message d.raw attempt) (steady : ∀ m, s.outcome m = outcome) :
    Adapter.decision c .inMemory s d = { raised := none, settled := true, enqueued := s.disposed attempt outcome } := by
  apply decision_of_disposes
  simp only [Adapter.deliver, InMemoryBroker.deliver, InMemoryBroker.onFailure, native]
  have branch := @disposes_branch c s attempt
    (fun _ => brokerCall (.append s.queue (s.message.retried attempt)))
    (fun dlq => brokerCall (.append dlq s.message)) false
    (fun _ _ => .putting fun _ => rfl) (fun _ _ => .putting fun _ => rfl)
  have handled := Disposes.handler (steady (incoming s.queue s.message attempt)) branch
  exact .seq (.settling fun _ => rfl) (.computed arrives.number handled)

/-- Kafka commits the offset of a record once its dispatch has returned. -/
theorem kafka_decision (arrives : Arrives c s.message d.raw attempt) (steady : ∀ m, s.outcome m = outcome) :
    Adapter.decision c .kafka s d = { raised := none, settled := true, enqueued := s.disposed attempt outcome } := by
  apply decision_of_disposes
  have branch := @disposes_branch c s attempt
    (fun delay => do
      brokerCall (.sleep delay)
      brokerCall (.sendAndWait s.queue (pack c (s.message.retried attempt))))
    (fun dlq => brokerCall (.sendAndWait dlq (pack c s.message))) false
    (fun _ _ => .seq .sleeping (.putting fun _ => by rw [Ledger.perform, arrives.unpack_retried]))
    (fun _ _ => .putting fun _ => by rw [Ledger.perform, arrives.unpack_same])
  have handled := Disposes.handler (steady (incoming s.queue s.message attempt)) branch
  have dispatched : Disposes c s (KafkaBroker.dispatch c s.topology s.queue d.raw) false (s.disposed attempt outcome) :=
    .computed arrives.received handled
  have committed := dispatched.seq (@Disposes.settling c s .commit fun _ => rfl)
  rwa [List.append_nil] at committed

/-- Redis takes a record off the processing list once its dispatch has returned. -/
theorem redis_decision (arrives : Arrives c s.message d.raw attempt) (steady : ∀ m, s.outcome m = outcome) :
    Adapter.decision c .redis s d = { raised := none, settled := true, enqueued := s.disposed attempt outcome } := by
  apply decision_of_disposes
  have branch := @disposes_branch c s attempt
    (fun _ => brokerCall (.lpush s.queue (pack c (s.message.retried attempt))))
    (fun dlq => brokerCall (.lpush dlq d.raw)) false
    (fun _ _ => .putting fun _ => by rw [Ledger.perform, arrives.unpack_retried])
    (fun _ _ => .putting fun _ => by rw [Ledger.perform, arrives.read])
  have handled := Disposes.handler (steady (incoming s.queue s.message attempt)) branch
  have dispatched : Disposes c s (RedisStreamsBroker.dispatch c s.topology s.queue d.raw) false
      (s.disposed attempt outcome) := .computed arrives.received handled
  have removed := dispatched.seq (@Disposes.settling c s .lrem fun _ => rfl)
  rwa [List.append_nil] at removed

/-- SQS is done with a message whose handler returned, or that it put into some queue. -/
theorem sqs_decision (arrives : Arrives c s.message d.raw attempt) (steady : ∀ m, s.outcome m = outcome)
    (finite : ∀ delay, s.topology.delay attempt = some delay → ∃ seconds, delay.truncate = .ok seconds) :
    Adapter.decision c .sqs s d =
      { raised := none
        settled := settledBy true ((s.topology.delay attempt).isSome || s.topology.dlq.isSome) outcome
        enqueued := s.disposed attempt outcome } := by
  apply decision_of_disposes
  have branch := @disposes_branch c s attempt
    (fun delay => do
      let seconds ← Act.ofExcept (S := BrokerSig) delay.truncate
      brokerCall (.sendMessage s.queue (pack c (s.message.retried attempt)) (some (min seconds 900)))
      brokerCall .deleteMessage)
    (fun dlq => do
      brokerCall (.sendMessage dlq (pack c s.message) none)
      brokerCall .deleteMessage) true
    (fun delay known => by
      obtain ⟨seconds, value⟩ := finite delay known
      exact .computed value (.seq (.putting fun _ => by rw [Ledger.perform, arrives.unpack_retried])
        (.settling fun _ => rfl)))
    (fun _ _ => .seq (.putting fun _ => by rw [Ledger.perform, arrives.unpack_same]) (.settling fun _ => rfl))
  have guarded := Disposes.guarded (steady (incoming s.queue s.message attempt)) (@Disposes.settling c s .deleteMessage fun _ => rfl)
    branch
  exact .computed arrives.received guarded

/-- RabbitMQ parks a failed message on the TTL queue of its attempt, and rejects it where there is none. -/
theorem rabbitmq_disposes (parked : (s.topology.delay attempt).isSome → (attempt - 1).toNat < s.topology.retryQueues.length) :
    Disposes c s (match s.topology.delay attempt, s.topology.retryQueues[(attempt - 1).toNat]? with
      | some _, some retryQueue => do
          brokerCall (.publish retryQueue (s.message.retried attempt))
          brokerCall .ack
      | _, _ => brokerCall .reject) true (s.moved attempt) := by
  rw [Surroundings.moved]
  cases delay : s.topology.delay attempt with
  | some seconds =>
      have inside := parked (by rw [delay]; rfl)
      rw [List.getElem?_eq_getElem inside]
      have routed : Ledger.route s s.topology.retryQueues[(attempt - 1).toNat] = s.queue :=
        if_pos (List.getElem_mem inside)
      exact .seq (.putting fun _ => by rw [Ledger.perform, routed]) (.settling fun _ => rfl)
  | none =>
      cases dlq : s.topology.dlq with
      | some name =>
          apply Disposes.ofCall
          · intro w
            rfl
          · intro w
            simp [Ledger.perform, Ledger.reject, dlq]
          · intro w
            simp [Ledger.perform, Ledger.reject, Ledger.enqueue, dlq]
      | none => exact .settling fun w => by simp [Ledger.perform, Ledger.reject, dlq]

/-- RabbitMQ acknowledges a message on its handler's return or once it is parked on a TTL queue,
and rejects it otherwise. -/
theorem rabbitmq_decision (native : d.native = s.message) (arrives : Arrives c s.message d.raw attempt) (steady : ∀ m, s.outcome m = outcome)
    (parked : (s.topology.delay attempt).isSome → (attempt - 1).toNat < s.topology.retryQueues.length) :
    Adapter.decision c .rabbitmq s d = { raised := none, settled := true, enqueued := s.disposed attempt outcome } := by
  apply decision_of_disposes
  have guarded := Disposes.guarded (steady { incoming s.queue s.message attempt with redelivered := d.redelivered })
    (@Disposes.settling c s .ack fun _ => rfl) (rabbitmq_disposes parked)
  rw [settledBy_self] at guarded
  simp only [Adapter.deliver, native]
  exact .computed arrives.number guarded

end adapters

/-! ## The adapters beside each other -/

/-- The same message but for the header that counts its attempts. -/
structure Stored.SameButAttempt (m m' : Stored) : Prop where
  body : m.body = m'.body
  messageId : m.messageId = m'.messageId
  correlationId : m.correlationId = m'.correlationId
  headers : ∀ k, k ≠ attemptHeader → Dict.get m.headers k = Dict.get m'.headers k

theorem sameButAttempt_retried (m : Stored) : (m.retried attempt).SameButAttempt m where
  body := rfl
  messageId := rfl
  correlationId := rfl
  headers := by
    intro k other
    exact Dict.get_set_ne _ _ (Ne.symm other)

section agreement

variable (q : QueueSpec) (attempt : Int) (message : Stored)

/-- A retry step stands for this attempt. -/
def QueueSpec.Retries : Prop := 1 ≤ attempt ∧ attempt ≤ q.retrySteps.length

instance : Decidable (q.Retries attempt) :=
  inferInstanceAs (Decidable (1 ≤ attempt ∧ attempt ≤ q.retrySteps.length))

/-- The dead-letter queue, if the specification names one. -/
def QueueSpec.dlq : Option String := q.dlqName.filter fun name => name ≠ ""

/-- What becomes of a message: nothing more after its handler returned, another attempt, the
dead-letter queue, or its end. -/
def QueueSpec.disposal : Except Exn Unit → List (String × Stored)
  | .ok () => []
  | .error _ =>
      if q.Retries attempt then [(q.name, message.retried attempt)]
      else match q.dlq with
        | some dlq => [(dlq, message)]
        | none => []

end agreement

theorem sameButAttempt_of_disposal {q : QueueSpec} {message : Stored} {outcome : Except Exn Unit} {put : String × Stored}
    (member : put ∈ q.disposal attempt message outcome) : put.2.SameButAttempt message := by
  cases outcome with
  | ok value => cases member
  | error e =>
      rw [QueueSpec.disposal] at member
      by_cases retried : q.Retries attempt
      · rw [if_pos retried] at member
        cases List.mem_singleton.mp member
        exact sameButAttempt_retried message
      · rw [if_neg retried] at member
        cases dlq : q.dlq with
        | some name =>
            rw [dlq] at member
            cases List.mem_singleton.mp member
            exact ⟨rfl, rfl, rfl, fun _ _ => rfl⟩
        | none =>
            rw [dlq] at member
            cases member

/-- A delivery of a message of a declared queue, to each of the adapters. -/
def QueueSpec.surroundings (q : QueueSpec) (topology : Topology) (message : Stored) (outcome : Except Exn Unit) :
    Surroundings :=
  { topology, queue := q.name, message, outcome := fun _ => outcome }

/-- The adapters declared the same queue. -/
structure Declared (p : Platform) (c : Codec) (q : QueueSpec) (topology : Adapter → Topology) : Prop where
  made : ∀ a : Adapter, a.ensureTopology p c.numerals q = .ok (topology a)

namespace Declared

variable {p : Platform} {q : QueueSpec} {topology : Adapter → Topology}

theorem plain (declared : Declared p c q topology) (a : Adapter) : ∃ t, Topology.ensure p c.numerals q = .ok t ∧
    (topology a).policy = t.policy ∧ (topology a).dlq = t.dlq := by
  have made := declared.made a
  cases a with
  | rabbitmq =>
      obtain ⟨t, ensured, policy, dlq, _⟩ := ensureRabbit_ok made
      exact ⟨t, ensured, policy, dlq⟩
  | inMemory => exact ⟨_, made, rfl, rfl⟩
  | kafka => exact ⟨_, made, rfl, rfl⟩
  | redis => exact ⟨_, made, rfl, rfl⟩
  | sqs => exact ⟨_, made, rfl, rfl⟩

theorem dlq (declared : Declared p c q topology) (a : Adapter) : (topology a).dlq = q.dlq := by
  obtain ⟨t, ensured, _, same⟩ := declared.plain a
  rw [same]
  exact dlq_of_ensure ensured

theorem retries (declared : Declared p c q topology) (a : Adapter) :
    ((topology a).delay attempt).isSome ↔ q.Retries attempt := by
  obtain ⟨t, ensured, same, _⟩ := declared.plain a
  have delay : (topology a).delay attempt = t.delay attempt := by
    rw [Topology.delay, Topology.delay, same]
  rw [delay]
  exact delay_of_ensure ensured

/-- The lifetimes of RabbitMQ's queues are integers, so every delay is finite. -/
theorem finite (declared : Declared p c q topology) (a : Adapter) {delay : PyFloat}
    (known : (topology a).delay attempt = some delay) : ∃ seconds, delay.truncate = .ok seconds := by
  obtain ⟨t, ensured, same, _⟩ := declared.plain a
  have delay_eq : (topology a).delay attempt = t.delay attempt := by
    rw [Topology.delay, Topology.delay, same]
  obtain ⟨step, member, parsed⟩ := step_of_delay ensured (delay_eq.symm.trans known)
  obtain ⟨_, _, _, _, _, lifetimes⟩ := ensureRabbit_ok (declared.made .rabbitmq)
  obtain ⟨ms, lifetime⟩ := lifetimes step member
  simp only [Topology.millis, parsed, bind, Except.bind] at lifetime
  exact PyFloat.truncate_times ⟨ms, lifetime⟩

theorem parked (declared : Declared p c q topology) (retried : ((topology .rabbitmq).delay attempt).isSome) :
    (attempt - 1).toNat < (topology .rabbitmq).retryQueues.length := by
  obtain ⟨low, high⟩ := (declared.retries .rabbitmq).mp retried
  obtain ⟨_, _, _, _, counted, _⟩ := ensureRabbit_ok (declared.made .rabbitmq)
  omega

theorem disposed (declared : Declared p c q topology) (a : Adapter) (message : Stored) (outcome : Except Exn Unit) :
    (q.surroundings (topology a) message outcome).disposed attempt outcome =
      (q.disposal attempt message outcome).map fun put => (put.1, .ok put.2) := by
  cases outcome with
  | ok value => rfl
  | error e =>
      have retries := @Declared.retries _ attempt _ _ _ declared a
      simp only [Surroundings.disposed, Surroundings.moved, QueueSpec.surroundings, QueueSpec.disposal, declared.dlq a]
      cases delay : (topology a).delay attempt with
      | some seconds =>
          rw [delay] at retries
          rw [if_pos (retries.mp rfl)]
          rfl
      | none =>
          rw [delay] at retries
          have exhausted : ¬ q.Retries attempt := by
            intro retried
            cases retries.mpr retried
          rw [if_neg exhausted]
          cases q.dlq with
          | some dlq => rfl
          | none => rfl

end Declared

/-- Whether an adapter is done with a delivered message. -/
def Adapter.settles (a : Adapter) (q : QueueSpec) (attempt : Int) (outcome : Except Exn Unit) : Bool :=
  match a with
  | .sqs => settledBy true (decide (q.Retries attempt) || q.dlq.isSome) outcome
  | _ => true

theorem settles_sqs {q : QueueSpec} {outcome : Except Exn Unit} :
    Adapter.sqs.settles q attempt outcome = true ↔ outcome = .ok () ∨ q.Retries attempt ∨ q.dlq.isSome := by
  cases outcome with
  | ok value => simp [Adapter.settles, settledBy]
  | error e => simp [Adapter.settles, settledBy]

/-- The adapters put the same messages into the same queues, and agree on whether they are done
with the delivered one exactly if its handler returned, a retry step is left or a dead-letter queue
is named. -/
theorem brokers_agree_iff {p : Platform} {q : QueueSpec} {topology : Adapter → Topology}
    (declared : Declared p c q topology) {d : Delivery} (arrives : Arrives c d.native d.raw attempt)
    (outcome : Except Exn Unit) :
    ((∀ a b : Adapter, a.decision c (q.surroundings (topology a) d.native outcome) d =
        b.decision c (q.surroundings (topology b) d.native outcome) d) ↔
      outcome = .ok () ∨ q.Retries attempt ∨ q.dlq.isSome) ∧
    (∀ a : Adapter,
      (a.decision c (q.surroundings (topology a) d.native outcome) d).raised = none ∧
      (a.decision c (q.surroundings (topology a) d.native outcome) d).enqueued =
        (q.disposal attempt d.native outcome).map fun put => (put.1, .ok put.2)) ∧
    ∀ put ∈ q.disposal attempt d.native outcome, put.2.SameButAttempt d.native := by
  have decided : ∀ a : Adapter, a.decision c (q.surroundings (topology a) d.native outcome) d =
      { raised := none
        settled := a.settles q attempt outcome
        enqueued := (q.disposal attempt d.native outcome).map fun put => (put.1, .ok put.2) } := by
    intro a
    rw [← declared.disposed a]
    cases a with
    | inMemory => exact inMemory_decision rfl arrives fun _ => rfl
    | kafka => exact kafka_decision arrives fun _ => rfl
    | redis => exact redis_decision arrives fun _ => rfl
    | rabbitmq => exact rabbitmq_decision rfl arrives (fun _ => rfl) declared.parked
    | sqs =>
        have delay : ((topology .sqs).delay attempt).isSome = decide (q.Retries attempt) := by
          rw [Bool.eq_iff_iff, decide_eq_true_iff]
          exact declared.retries .sqs
        rw [sqs_decision (s := q.surroundings (topology .sqs) d.native outcome) arrives (fun _ => rfl)
          fun delay known => declared.finite .sqs known]
        simp only [QueueSpec.surroundings, Adapter.settles, delay, declared.dlq]
  constructor
  · constructor
    · intro agree
      have settled := congrArg Decision.settled (agree .sqs .kafka)
      rw [decided, decided] at settled
      exact settles_sqs.mp settled
    · intro answered a b
      have settled : ∀ a : Adapter, a.settles q attempt outcome = true := by
        intro a
        cases a with
        | sqs => exact settles_sqs.mpr answered
        | inMemory => rfl
        | kafka => rfl
        | redis => rfl
        | rabbitmq => rfl
      rw [decided, decided, settled a, settled b]
  · constructor
    · intro a
      rw [decided]
      exact ⟨rfl, rfl⟩
    · intro put member
      exact sameButAttempt_of_disposal member

end Transport

namespace Sample

open Transport

/-- A message without headers, and its text on the wire. -/
def greeting : Stored := { body := [104, 105], messageId := "m" }

def greetingText : Bytes :=
  "\x7b\"body\": \"aGk=\", \"headers\": \x7b\x7d, \"message_id\": \"m\", \"correlation_id\": null\x7d".toUTF8.toList

def retriedText : Bytes :=
  "\x7b\"body\": \"aGk=\", \"headers\": \x7b\"x-maof-attempt\": \"2\"\x7d, \"message_id\": \"m\", \"correlation_id\": null\x7d".toUTF8.toList

/-- The texts of the one message, under its first two numbers. -/
def codec : Codec where
  unicode := platform.unicode
  numerals := { digit := fun _ => none }
  loads raw :=
    if raw = greetingText then .ok (payload greeting)
    else if raw = retriedText then .ok (payload (greeting.retried 1))
    else .error (.valueError "Expecting value")
  dumps value := match value.get? "headers" with
    | some (.obj []) => greetingText
    | _ => retriedText

/-- What a handler raises. -/
def failure : Exn := .valueError "no such task"

/-- A queue without retry steps and without dead letters. -/
def tasksQueue : QueueSpec := { name := "tasks" }

def greeted : Transport.Delivery := { raw := greetingText, native := greeting }

theorem tasksQueue_declared : Declared platform codec tasksQueue fun _ => {} where
  made a := by
    cases a <;> rfl

/-- A queue with dead letters. -/
def buryingQueue : QueueSpec := { name := "tasks", dlqName := some "tasks.dead" }

theorem buryingQueue_declared : Declared platform codec buryingQueue fun _ => { dlq := some "tasks.dead" } where
  made a := by
    cases a <;> rfl

theorem greeting_lossless (m : Stored) (either : m = greeting ∨ m = greeting.retried 1) :
    codec.loads (codec.dumps (payload m)) = .ok (payload m) := by
  have differ : retriedText ≠ greetingText := by
    decide +kernel
  obtain rfl | rfl := either
  · exact if_pos rfl
  · exact (if_neg differ).trans (if_pos rfl)

theorem greeting_arrives : Arrives codec greeting greetingText 1 where
  read := unpack_pack (by decide) (greeting_lossless greeting (.inl rfl))
  number := by
    have number : codec.numerals.parseInt ['1'] = some 1 := by
      decide +kernel
    simp [attemptOf, greeting, Numerals.int, number]
  lossless := greeting_lossless

end Sample

open Transport Sample

/-- RabbitMQ's dead-letter exchange and SQS's queue of dead letters bury the same message. -/
theorem brokers_bury :
    Adapter.decision codec .rabbitmq (buryingQueue.surroundings { dlq := some "tasks.dead" } greeting (.error failure)) Sample.greeted =
      Adapter.decision codec .sqs (buryingQueue.surroundings { dlq := some "tasks.dead" } greeting (.error failure)) Sample.greeted := by
  apply (brokers_agree_iff buryingQueue_declared (d := Sample.greeted) greeting_arrives (.error failure)).1.mpr
  exact .inr (.inr rfl)

/-- SQS keeps a message that the other adapters drop. -/
theorem sqs_keeps_failed : ¬ ∀ (p : Platform) (c : Codec) (q : QueueSpec) (topology : Adapter → Topology),
    Declared p c q topology → ∀ (d : Transport.Delivery) (attempt : Int), Arrives c d.native d.raw attempt →
    ∀ (outcome : Except Exn Unit) (a b : Adapter),
      a.decision c (q.surroundings (topology a) d.native outcome) d =
        b.decision c (q.surroundings (topology b) d.native outcome) d := by
  intro agree
  have settled := congrArg Decision.settled (agree _ _ _ _ tasksQueue_declared Sample.greeted 1 greeting_arrives
    (.error failure) .sqs .kafka)
  revert settled
  decide +kernel

end Maof
