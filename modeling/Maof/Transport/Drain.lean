import Maof.Transport.FailureHandling
import Maof.Transport.Signing

/-!
# Draining a queue of the in-memory broker

`consume` takes messages from the head of a queue and puts failed ones back at
its end, until none is left.
-/

namespace Maof
namespace Transport

open Data (Dict)
open Effects (Act)

/-! ## The broker -/

/-- `InMemoryBroker`, with all its queues. -/
structure MemoryBroker where
  queues : Dict String (List Stored) := []
  policies : Dict String RetryPolicy := []
  dlq : Dict String String := []
  /-- Backoff delays scheduled so far. -/
  scheduledDelays : List PyFloat := []

/-- What a handler has published, and how it ends. -/
structure Handling where
  published : List (String × Stored) := []
  outcome : Except Exn Unit

abbrev Handler (W : Type) : Type := W → IncomingMessage → W × Handling

/-- A delivery. -/
structure Turn where
  msg : IncomingMessage
  handling : Handling

/-- What is left when `consume` is over, the exception that ended it, and the deliveries it made. -/
structure Consumption (W : Type) where
  broker : MemoryBroker
  handlerState : W
  raised : Option Exn := none
  turns : List Turn := []

namespace MemoryBroker

/-- A queue that nothing has named is empty. -/
def queue (b : MemoryBroker) (name : String) : List Stored := (Dict.get b.queues name).getD []

def setQueue (b : MemoryBroker) (name : String) (ms : List Stored) : MemoryBroker :=
  { b with queues := Dict.set b.queues name ms }

def declare (b : MemoryBroker) (name : String) : MemoryBroker :=
  match Dict.get b.queues name with
  | some _ => b
  | none => b.setQueue name []

def ensureQueue (p : Platform) (n : Numerals) (q : QueueSpec) (b : MemoryBroker) : MemoryBroker × Except Exn Unit :=
  let b := b.declare q.name
  let buried (b : MemoryBroker) : MemoryBroker := match q.dlq with
    | some dlq => { b with dlq := Dict.set b.dlq q.name dlq }.declare dlq
    | none => b
  if q.retrySteps.isEmpty then (buried b, .ok ())
  else match RetryPolicy.ofSteps p n q.retrySteps with
    | .error e => (b, .error e)
    | .ok policy => (buried { b with policies := Dict.set b.policies q.name policy }, .ok ())

def ensureTopology (p : Platform) (n : Numerals) : List QueueSpec → MemoryBroker → MemoryBroker × Except Exn Unit
  | [], b => (b, .ok ())
  | q :: qs, b => match ensureQueue p n q b with
    | (b, .error e) => (b, .error e)
    | (b, .ok ()) => ensureTopology p n qs b

def publish (b : MemoryBroker) (name : String) (m : Stored) : MemoryBroker := b.setQueue name (b.queue name ++ [m])

def onFailure (b : MemoryBroker) (queue : String) (stored : Stored) (attempt : Int) : MemoryBroker :=
  match (Dict.get b.policies queue).bind fun policy => policy.delayForAttempt attempt with
  | some delay =>
      { b with scheduledDelays := b.scheduledDelays ++ [delay] }.publish queue (stored.retried attempt)
  | none => match Dict.get b.dlq queue with
      | some dlq => b.publish dlq stored
      | none => b

variable {W : Type} (c : Codec) (queue : String) (handler : Handler W)

/-- What becomes of a message that was taken: the handler publishes what it does, and then ends. -/
def dispatch (b : MemoryBroker) (stored : Stored) (attempt : Int) (handling : Handling) : MemoryBroker :=
  let b := handling.published.foldl (fun b put => b.publish put.1 put.2) b
  match handling.outcome with
  | .ok () => b
  | .error _ => b.onFailure queue stored attempt

/-- `consume`, in so many turns if they are enough. -/
def consume : Nat → MemoryBroker × W → Option (Consumption W)
  | turns, (b, w) => match b.queue queue with
    | [] => some { broker := b, handlerState := w }
    | stored :: rest => match turns with
      | 0 => none
      | turns + 1 =>
          let b := b.setQueue queue rest
          match attemptOf c stored.headers with
          | .error e => some { broker := b, handlerState := w, raised := some e }
          | .ok attempt =>
              let msg := incoming queue stored attempt
              let (w, handling) := handler w msg
              (consume turns (b.dispatch queue stored attempt handling, w)).map fun out =>
                { out with turns := { msg, handling } :: out.turns }

end MemoryBroker

/-! ## What is in the queues -/

namespace MemoryBroker

variable {b : MemoryBroker}

theorem queue_setQueue (b : MemoryBroker) (name name' : String) (ms : List Stored) :
    (b.setQueue name ms).queue name' = if name = name' then ms else b.queue name' := by
  unfold queue setQueue
  rw [Dict.get_set]
  split <;> rfl

theorem queue_publish (b : MemoryBroker) (name name' : String) (m : Stored) :
    (b.publish name m).queue name' = b.queue name' ++ if name = name' then [m] else [] := by
  rw [publish, queue_setQueue]
  split
  · next same => rw [same]
  · rw [List.append_nil]

/-- What was published to a queue, in order. -/
def sentTo (name : String) (puts : List (String × Stored)) : List Stored :=
  (puts.filter fun put => put.1 = name).map Prod.snd

theorem queue_published (puts : List (String × Stored)) (b : MemoryBroker) (name : String) :
    (puts.foldl (fun b put => b.publish put.1 put.2) b).queue name = b.queue name ++ sentTo name puts := by
  induction puts generalizing b with
  | nil => simp [sentTo]
  | cons put puts ih =>
      rw [List.foldl_cons, ih, queue_publish, List.append_assoc]
      by_cases here : put.1 = name
      · simp [sentTo, here]
      · simp [sentTo, here]

end MemoryBroker

/-! ## One message -/

/-- The message under the number of an attempt; the first goes without. -/
def Stored.under (m : Stored) (attempt : Nat) : Stored :=
  if attempt ≤ 1 then m else { m with headers := Dict.set m.headers attemptHeader (toString (attempt : Int)) }

theorem under_retried (m : Stored) {attempt : Nat} (counted : 1 ≤ attempt) :
    (m.under attempt).retried attempt = m.under (attempt + 1) := by
  have later : ¬ attempt + 1 ≤ 1 := by omega
  unfold Stored.under Stored.retried
  rw [if_neg later]
  by_cases first : attempt ≤ 1
  · rw [if_pos first]
    rfl
  · rw [if_neg first]
    simp only [Dict.set_set]
    rfl

theorem sameButAttempt_under (m : Stored) (attempt : Nat) : (m.under attempt).SameButAttempt m := by
  unfold Stored.under
  split
  · exact ⟨rfl, rfl, rfl, fun _ _ => rfl⟩
  · exact ⟨rfl, rfl, rfl, fun k other => Dict.get_set_ne _ _ (Ne.symm other)⟩

/-- Python's `int` reads what `str` has written. -/
theorem attemptOf_under {c : Codec} {m : Stored} (fresh : Dict.get m.headers attemptHeader = none) {attempt : Nat}
    (counted : 1 ≤ attempt) (short : (Nat.toDigits 10 attempt).length ≤ c.numerals.maxStrDigits) :
    attemptOf c (m.under attempt).headers = .ok attempt := by
  have reads : (Dict.get (m.under attempt).headers attemptHeader).getD "1" = toString (attempt : Int) := by
    unfold Stored.under
    by_cases first : attempt ≤ 1
    · obtain rfl : attempt = 1 := by omega
      rw [if_pos first, fresh]
      rfl
    · rw [if_neg first, Dict.get_set_self]
      rfl
  rw [attemptOf, reads]
  exact Numerals.int_toString c.numerals short

/-- The header that counts the attempts is none of those a signature is read from. -/
theorem extractHeader_under (m : Stored) (attempt : Nat) {aliases : List String} (others : attemptHeader ∉ aliases) :
    extractHeader (m.under attempt).headers aliases = extractHeader m.headers aliases := by
  have lower : attemptHeader.toLower = attemptHeader := by decide +kernel
  unfold Stored.under
  split
  · rfl
  unfold extractHeader
  simp only
  have same : ∀ name ∈ aliases, ∀ text, Dict.get (Dict.update [] ((Dict.set m.headers attemptHeader text).map
      fun kv => (kv.1.toLower, kv.2))) name = Dict.get (Dict.update [] (m.headers.map fun kv => (kv.1.toLower, kv.2))) name := by
    intro name member text
    have out : ∀ b : String, decide (attemptHeader.toLower = name) = false := by
      intro _
      rw [lower]
      exact decide_eq_false fun is => others (is ▸ member)
    rw [Dict.get_update, Dict.get_update, ← Dict.get_filter, ← Dict.get_filter (m.headers.map _).reverse, List.filter_reverse,
      List.filter_reverse, List.filter_map, List.filter_map, Function.comp_def, Dict.filter_set out]
  generalize toString (attempt : Int) = text
  clear others
  induction aliases with
  | nil => rfl
  | cons name aliases ih =>
      rw [List.findSome?_cons, List.findSome?_cons, same name List.mem_cons_self,
        ih fun name member => same name (List.mem_cons_of_mem _ member)]

/-- A signature that a message carries is as valid at every delivery. -/
theorem verify_under (p : Platform) (signer : Signer) (body : String) (m : Stored) (attempt : Nat) :
    signer.verify p body (m.under attempt).headers = signer.verify p body m.headers := by
  unfold Signer.verify
  rw [extractHeader_under m attempt (by decide), extractHeader_under m attempt (by decide)]

/-! ## A delivery -/

namespace Turn

variable (delays : List PyFloat) (t : Turn)

/-- The delay a failed delivery schedules. -/
def scheduled : Option PyFloat :=
  match t.handling.outcome with
  | .ok () => none
  | .error _ => RetryPolicy.delayForAttempt { delays } t.msg.attempt

/-- What a failed delivery puts back into its queue. -/
def requeued : List Stored :=
  match t.handling.outcome, t.scheduled delays with
  | .error _, some _ => [t.msg.toStored.retried t.msg.attempt]
  | _, _ => []

/-- What a failed delivery leaves to the dead letters. -/
def buried : List Stored :=
  match t.handling.outcome, t.scheduled delays with
  | .error _, none => [t.msg.toStored]
  | _, _ => []

variable {delays t}

theorem returned (ended : t.handling.outcome = .ok ()) :
    t.scheduled delays = none ∧ t.requeued delays = [] ∧ t.buried delays = [] := by
  simp [scheduled, requeued, buried, ended]

theorem retried {e : Exn} {delay : PyFloat} (ended : t.handling.outcome = .error e)
    (due : RetryPolicy.delayForAttempt { delays } t.msg.attempt = some delay) :
    t.scheduled delays = some delay ∧ t.requeued delays = [t.msg.toStored.retried t.msg.attempt] ∧ t.buried delays = [] := by
  simp [scheduled, requeued, buried, ended, due]

theorem exhausted {e : Exn} (ended : t.handling.outcome = .error e)
    (spent : RetryPolicy.delayForAttempt { delays } t.msg.attempt = none) :
    t.scheduled delays = none ∧ t.requeued delays = [] ∧ t.buried delays = [t.msg.toStored] := by
  simp [scheduled, requeued, buried, ended, spent]

end Turn

namespace MemoryBroker

/-- The queue is declared with these delays, and with other dead letters than itself. -/
structure Serves (b : MemoryBroker) (queue : String) (delays : List PyFloat) (dlq : String) : Prop where
  steps : ((Dict.get b.policies queue).map RetryPolicy.delays).getD [] = delays
  letters : Dict.get b.dlq queue = some dlq
  apart : queue ≠ dlq

variable {b : MemoryBroker} {queue dlq : String} {delays : List PyFloat}

theorem Serves.delay (serves : b.Serves queue delays dlq) (attempt : Int) :
    ((Dict.get b.policies queue).bind fun policy => policy.delayForAttempt attempt) =
      RetryPolicy.delayForAttempt { delays } attempt := by
  rw [← serves.steps]
  cases Dict.get b.policies queue with
  | some policy => rfl
  | none => simp [RetryPolicy.delayForAttempt]

theorem Serves.congr {b' : MemoryBroker} (serves : b.Serves queue delays dlq) (policies : b'.policies = b.policies)
    (letters : b'.dlq = b.dlq) : b'.Serves queue delays dlq where
  steps := by rw [policies, serves.steps]
  letters := by rw [letters, serves.letters]
  apart := serves.apart

theorem published_declarations (puts : List (String × Stored)) (b : MemoryBroker) :
    let b' := puts.foldl (fun b put => b.publish put.1 put.2) b
    b'.policies = b.policies ∧ b'.dlq = b.dlq ∧ b'.scheduledDelays = b.scheduledDelays := by
  induction puts generalizing b with
  | nil => exact ⟨rfl, rfl, rfl⟩
  | cons put puts ih => exact ih (b.publish put.1 put.2)

/-- What a delivery does to the broker. -/
structure Disposed (queue dlq : String) (delays : List PyFloat) (t : Turn) (b b' : MemoryBroker) : Prop where
  serves : b'.Serves queue delays dlq
  scheduled : b'.scheduledDelays = b.scheduledDelays ++ (t.scheduled delays).toList
  queues : ∀ name, b'.queue name = b.queue name ++ (sentTo name t.handling.published ++
    ((if queue = name then t.requeued delays else []) ++ if dlq = name then t.buried delays else []))

theorem onFailure_eq (serves : b.Serves queue delays dlq) (stored : Stored) (attempt : Int) :
    b.onFailure queue stored attempt = match RetryPolicy.delayForAttempt { delays } attempt with
      | some delay => { b with scheduledDelays := b.scheduledDelays ++ [delay] }.publish queue (stored.retried attempt)
      | none => b.publish dlq stored := by
  rw [onFailure, serves.delay, serves.letters]

theorem dispatch_disposed (serves : b.Serves queue delays dlq) (stored : Stored) (attempt : Int) (handling : Handling) :
    Disposed queue dlq delays { msg := incoming queue stored attempt, handling } b
      (b.dispatch queue stored attempt handling) := by
  obtain ⟨policies, letters, schedule⟩ := published_declarations handling.published b
  have sent := queue_published handling.published b
  unfold dispatch
  generalize handling.published.foldl (fun b put => b.publish put.1 put.2) b = b₁ at policies letters schedule sent
  have serves₁ : b₁.Serves queue delays dlq := serves.congr policies letters
  simp only
  rw [onFailure_eq serves₁]
  -- the delivery as it is recorded
  generalize recorded : ({ msg := incoming queue stored attempt, handling } : Turn) = t
  have handled : t.handling = handling := by rw [← recorded]
  have message : t.msg.toStored = stored := by rw [← recorded]; rfl
  have number : t.msg.attempt = attempt := by rw [← recorded]; rfl
  rw [← handled] at sent ⊢
  rw [← message, ← number]
  cases ended : t.handling.outcome with
  | ok value =>
      obtain ⟨quiet, nothing, none⟩ := @Turn.returned delays _ ended
      refine ⟨serves₁, ?_, fun name => ?_⟩
      · simp [quiet, schedule]
      · simp [nothing, none, sent]
  | error e =>
      cases due : RetryPolicy.delayForAttempt { delays } t.msg.attempt with
      | some delay =>
          obtain ⟨scheduled, again, none⟩ := Turn.retried ended due
          refine ⟨serves₁.congr rfl rfl, ?_, fun name => ?_⟩
          · simp [scheduled, publish, setQueue, schedule]
          · refine (queue_publish _ queue name _).trans ?_
            rw [show MemoryBroker.queue { b₁ with scheduledDelays := b₁.scheduledDelays ++ [delay] } name = b₁.queue name from rfl]
            simp [again, none, sent]
      | none =>
          obtain ⟨quiet, nothing, dead⟩ := Turn.exhausted ended due
          refine ⟨serves₁.congr rfl rfl, ?_, fun name => ?_⟩
          · simp [quiet, publish, setQueue, schedule]
          · refine (queue_publish _ dlq name _).trans ?_
            simp [nothing, dead, sent]

end MemoryBroker

/-! ## Declarations -/

namespace MemoryBroker

variable {b b' : MemoryBroker}

theorem declare_same (b : MemoryBroker) (name : String) :
    (b.declare name).policies = b.policies ∧ (b.declare name).dlq = b.dlq := by
  unfold declare
  cases Dict.get b.queues name <;> exact ⟨rfl, rfl⟩

/-- A queue that is declared for the first time is served as its specification says. -/
theorem serves_of_ensure {p : Platform} {n : Numerals} {q : QueueSpec} {dlq : String}
    (first : Dict.get b.policies q.name = none) (letters : q.dlq = some dlq) (apart : q.name ≠ dlq)
    (ensured : ensureTopology p n [q] b = (b', .ok ())) :
    ∃ delays, q.retrySteps.mapM (Retry.parseDuration p n) = .ok delays ∧ b'.Serves q.name delays dlq := by
  obtain ⟨policies, _⟩ := declare_same b q.name
  simp only [ensureTopology, ensureQueue, letters] at ensured
  cases steps : q.retrySteps with
  | nil =>
      rw [steps] at ensured
      cases ensured
      refine ⟨[], rfl, ?_, ?_, apart⟩
      · rw [(declare_same _ dlq).1]
        simp [policies, first]
      · rw [(declare_same _ dlq).2]
        exact Dict.get_set_self _ _ _
  | cons step steps' =>
      rw [steps] at ensured
      simp only [List.isEmpty_cons, Bool.false_eq_true, if_false] at ensured
      cases parsed : RetryPolicy.ofSteps p n (step :: steps') with
      | error e =>
          rw [parsed] at ensured
          cases ensured
      | ok policy =>
          obtain ⟨delays, mapped, made⟩ := ok_of_bind parsed
          cases made
          rw [parsed] at ensured
          cases ensured
          refine ⟨delays, mapped, ?_, ?_, apart⟩
          · rw [(declare_same _ dlq).1]
            simp
          · rw [(declare_same _ dlq).2]
            exact Dict.get_set_self _ _ _

end MemoryBroker

/-! ## The calls of one turn -/

namespace MemoryBroker

def topology (b : MemoryBroker) (queue : String) : Topology :=
  { policy := Dict.get b.policies queue, dlq := Dict.get b.dlq queue }

/-- What the calls of a turn do to the queues. -/
def perform (queue : String) (handling : Handling) (b : MemoryBroker) : (op : BrokerOp) → MemoryBroker × Except Exn Unit
  | .handle _ => (handling.published.foldl (fun b put => b.publish put.1 put.2) b, handling.outcome)
  | .popleft => (b.setQueue queue (b.queue queue).tail, .ok ())
  | .append name m => (b.publish name m, .ok ())
  | _ => (b, .ok ())

/-- The turn of the adapter, call by call, leaves in the queues what a turn of the loop leaves. -/
theorem deliver_queues {c : Codec} {b : MemoryBroker} {queue : String} {stored : Stored} {rest : List Stored} {attempt : Int}
    (head : b.queue queue = stored :: rest) (reads : attemptOf c stored.headers = .ok attempt) (handling : Handling)
    (name : String) :
    (((InMemoryBroker.deliver c (b.topology queue) queue stored ()).eval (perform queue handling) b).2.queue name =
      ((b.setQueue queue rest).dispatch queue stored attempt handling).queue name) := by
  have taken : (perform queue handling b .popleft).1 = b.setQueue queue rest := by
    simp only [perform, head, List.tail_cons]
  unfold InMemoryBroker.deliver
  rw [Act.eval_await_ok (a := ()) rfl, Act.eval_ofExcept_bind, reads, taken]
  simp only
  rw [Act.eval_tryCatch]
  have handled : ∀ msg, ((brokerCall (.handle msg)) ()).eval (perform queue handling) (b.setQueue queue rest) =
      ((handling.outcome, ()), handling.published.foldl (fun b put => b.publish put.1 put.2) (b.setQueue queue rest)) :=
    fun _ => rfl
  rw [handled]
  unfold dispatch
  obtain ⟨policies, letters, _⟩ := published_declarations handling.published (b.setQueue queue rest)
  generalize handling.published.foldl (fun b put => b.publish put.1 put.2) (b.setQueue queue rest) = b₁ at policies letters
  have same : b₁.topology queue = b.topology queue := by
    rw [topology, topology, policies, letters]
    rfl
  cases handling.outcome with
  | ok value => rfl
  | error e =>
      simp only
      rw [← same]
      unfold InMemoryBroker.onFailure onFailure Topology.delay topology
      cases (Dict.get b₁.policies queue).bind fun policy => policy.delayForAttempt attempt with
      | some delay => rfl
      | none => cases Dict.get b₁.dlq queue <;> rfl

end MemoryBroker

/-! ## The deliveries of one message -/

/-- A delivery of the message, under this number. -/
def Turn.Delivers (queue : String) (m : Stored) (attempt : Nat) (t : Turn) : Prop :=
  t.msg = incoming queue (m.under attempt) attempt

/-- The deliveries of a message, from an attempt on. -/
inductive Story (queue : String) (delays : List PyFloat) (m : Stored) : Nat → List Turn → Prop
  | handled {attempt t} (delivers : t.Delivers queue m attempt) (returned : t.handling.outcome = .ok ()) :
      Story queue delays m attempt [t]
  | buried {attempt t e} (delivers : t.Delivers queue m attempt) (raised : t.handling.outcome = .error e)
      (last : attempt = delays.length + 1) : Story queue delays m attempt [t]
  | retried {attempt t e rest} (delivers : t.Delivers queue m attempt) (raised : t.handling.outcome = .error e)
      (more : attempt ≤ delays.length) (then_ : Story queue delays m (attempt + 1) rest) :
      Story queue delays m attempt (t :: rest)

/-- After a delivery the story goes on with the next number, or is over. -/
theorem Story.next {queue : String} {delays : List PyFloat} {m : Stored} {attempt : Nat} {t : Turn}
    (delivers : t.Delivers queue m attempt) (counted : 1 ≤ attempt) (bounded : attempt ≤ delays.length + 1) :
    ∃ again : List Nat, t.requeued delays = again.map m.under ∧ (again = [] ∨ again = [attempt + 1] ∧ attempt ≤ delays.length) ∧
      ∀ rest, (again = [] → rest = []) → (∀ k ∈ again, Story queue delays m k rest) →
        Story queue delays m attempt (t :: rest) := by
  have message : t.msg.toStored = m.under attempt := by rw [delivers]; rfl
  have number : t.msg.attempt = attempt := by rw [delivers]; rfl
  have more := @RetryPolicy.delayForAttempt_isSome { delays } t.msg.attempt
  rw [number] at more
  cases ended : t.handling.outcome with
  | ok value =>
      refine ⟨[], (Turn.returned ended).2.1, .inl rfl, fun rest done _ => ?_⟩
      rw [done rfl]
      exact .handled delivers ended
  | error e =>
      cases due : RetryPolicy.delayForAttempt { delays } t.msg.attempt with
      | some delay =>
          rw [number] at due
          have left : attempt ≤ delays.length := by
            have within := (more.mp (by rw [due]; rfl)).2
            exact Int.ofNat_le.mp within
          rw [← number] at due
          refine ⟨[attempt + 1], ?_, .inr ⟨rfl, left⟩, fun rest _ goes => ?_⟩
          · rw [(Turn.retried ended due).2.1, message, number, under_retried m counted]
            rfl
          · exact .retried delivers ended left (goes _ (List.mem_singleton_self _))
      | none =>
          have last : attempt = delays.length + 1 := by
            by_contra other
            have within : attempt ≤ delays.length := by omega
            rw [number] at due
            have found := more.mpr ⟨by omega, by simpa using within⟩
            rw [due] at found
            cases found
          refine ⟨[], (Turn.exhausted ended due).2.1, .inl rfl, fun rest done _ => ?_⟩
          rw [done rfl]
          exact .buried delivers ended last

namespace Story

variable {queue : String} {delays : List PyFloat} {m : Stored} {attempt : Nat} {l : List Turn}

theorem scheduled_retried {t : Turn} {e : Exn} (delivers : t.Delivers queue m attempt)
    (raised : t.handling.outcome = .error e) (counted : 1 ≤ attempt) (more : attempt ≤ delays.length) :
    t.scheduled delays = delays[attempt - 1]? := by
  have number : t.msg.attempt = attempt := by rw [delivers]; rfl
  have place : ((attempt : Int) - 1).toNat = attempt - 1 := by omega
  rw [Turn.scheduled, raised]
  simp only
  rw [number, RetryPolicy.delayForAttempt, if_pos ⟨by omega, by simpa using more⟩, place]

theorem length (story : Story queue delays m attempt l) (bounded : attempt ≤ delays.length + 1) :
    1 ≤ l.length ∧ l.length + attempt ≤ delays.length + 2 := by
  induction story with
  | handled delivers returned =>
      rw [List.length_singleton]
      omega
  | buried delivers raised last =>
      rw [List.length_singleton]
      omega
  | retried delivers raised more then_ ih =>
      have rest := ih (Nat.succ_le_succ more)
      rw [List.length_cons]
      omega

theorem numbered (story : Story queue delays m attempt l) :
    l.map (fun t => t.msg.attempt) = (List.range l.length).map fun i : Nat => (attempt : Int) + i := by
  induction story with
  | handled delivers returned =>
      rw [List.map_singleton, delivers]
      rfl
  | buried delivers raised last =>
      rw [List.map_singleton, delivers]
      rfl
  | @retried attempt t e rest delivers raised more then_ ih =>
      rw [List.map_cons, ih, List.length_cons, List.range_succ_eq_map, List.map_cons, List.map_map, delivers]
      refine List.cons_eq_cons.mpr ⟨?_, List.map_congr_left fun i _ => ?_⟩
      · exact (add_zero _).symm
      · simp only [Function.comp_apply]
        omega

theorem delivers (story : Story queue delays m attempt l) : ∀ t ∈ l, ∃ k, t.Delivers queue m k := by
  induction story with
  | handled delivers returned =>
      intro t member
      cases List.mem_singleton.mp member
      exact ⟨_, delivers⟩
  | buried delivers raised last =>
      intro t member
      cases List.mem_singleton.mp member
      exact ⟨_, delivers⟩
  | retried delivers raised more then_ ih =>
      intro t member
      rcases List.mem_cons.mp member with rfl | member
      · exact ⟨_, delivers⟩
      · exact ih t member

theorem delays_prefix (story : Story queue delays m attempt l) (counted : 1 ≤ attempt) :
    l.filterMap (Turn.scheduled delays) <+: delays.drop (attempt - 1) := by
  induction story with
  | handled delivers returned =>
      rw [List.filterMap_cons, (Turn.returned returned).1]
      exact List.nil_prefix
  | @buried attempt t e delivers raised last =>
      have number : t.msg.attempt = attempt := by rw [delivers]; rfl
      have none : t.scheduled delays = none := by
        rw [Turn.scheduled, raised]
        simp only
        rw [number, RetryPolicy.delayForAttempt, if_neg]
        simp only
        omega
      rw [List.filterMap_cons, none]
      exact List.nil_prefix
  | @retried attempt t e rest delivers raised more then_ ih =>
      have inside : attempt - 1 < delays.length := by omega
      rw [List.filterMap_cons, scheduled_retried delivers raised counted more, List.getElem?_eq_getElem inside,
        List.drop_eq_getElem_cons inside]
      have goes := ih (Nat.le_add_left 1 attempt)
      rw [show attempt + 1 - 1 = attempt - 1 + 1 by omega] at goes
      exact List.cons_prefix_cons.mpr ⟨rfl, goes⟩

end Story

/-- The deliveries whose origin is this message. -/
def turnsOf (i : Nat) (origin : List Nat) (turns : List Turn) : List Turn :=
  ((origin.zip turns).filter fun kv => kv.1 = i).map Prod.snd

theorem turnsOf_cons (i j : Nat) (origin : List Nat) (t : Turn) (turns : List Turn) :
    turnsOf i (j :: origin) (t :: turns) = if j = i then t :: turnsOf i origin turns else turnsOf i origin turns := by
  unfold turnsOf
  rw [List.zip_cons_cons, List.filter_cons]
  by_cases same : j = i
  · simp [same]
  · simp [same]

theorem turnsOf_other {i : Nat} {origin : List Nat} (other : i ∉ origin) (turns : List Turn) : turnsOf i origin turns = [] := by
  unfold turnsOf
  rw [List.map_eq_nil_iff, List.filter_eq_nil_iff]
  intro kv member
  have origins := (List.of_mem_zip member).1
  exact fun same => other (of_decide_eq_true same ▸ origins)

/-! ## A run -/

section run

variable {W : Type} {c : Codec} {queue dlq : String} {delays : List PyFloat} {handler : Handler W}

/-- What a queue still has to deliver: of each message, which of the published ones it is, and the
number of its next attempt. -/
abbrev Pending : Type := List (Nat × Nat)

/-- How many deliveries are left at most. -/
def Pending.weight (delays : List PyFloat) (pending : Pending) : Nat :=
  (pending.map fun x => delays.length + 2 - x.2).sum

/-- What a run of `consume` leaves of a broker whose queue had these messages pending. -/
structure Drains (queue dlq : String) (delays : List PyFloat) (published : Nat → Stored) (pending : Pending)
    (b : MemoryBroker) (out : Consumption W) (origin : List Nat) : Prop where
  raised : out.raised = none
  empty : out.broker.queue queue = []
  others : ∀ name, queue ≠ name → out.broker.queue name = b.queue name ++ out.turns.flatMap fun t =>
    MemoryBroker.sentTo name t.handling.published ++ if dlq = name then t.buried delays else []
  scheduled : out.broker.scheduledDelays = b.scheduledDelays ++ out.turns.filterMap (Turn.scheduled delays)
  aligned : origin.length = out.turns.length
  known : ∀ i ∈ origin, i ∈ pending.map Prod.fst
  story : ∀ x ∈ pending, Story queue delays (published x.1) x.2 (turnsOf x.1 origin out.turns)

theorem weight_append (delays : List PyFloat) (pending pending' : Pending) :
    Pending.weight delays (pending ++ pending') = Pending.weight delays pending + Pending.weight delays pending' := by
  simp [Pending.weight]

/-- Every number that is reached can be read. -/
theorem readable (numbered : delays.length + 1 < 10 ^ c.numerals.maxStrDigits) {attempt : Nat}
    (bounded : attempt ≤ delays.length + 1) : (Nat.toDigits 10 attempt).length ≤ c.numerals.maxStrDigits := by
  have some : 0 < c.numerals.maxStrDigits := by
    by_contra zero
    rw [Nat.eq_zero_of_not_pos zero] at numbered
    omega
  exact (Nat.length_toDigits_le_iff (by decide) some).mpr (by omega)

theorem drains_nil {published : Nat → Stored} {b : MemoryBroker} {w : W} (holds : b.queue queue = []) :
    ∃ out origin, (∀ turns, Pending.weight delays [] ≤ turns →
        MemoryBroker.consume c queue handler turns (b, w) = some out) ∧
      Drains queue dlq delays published [] b out origin := by
  refine ⟨{ broker := b, handlerState := w }, [], fun turns _ => ?_, rfl, holds, ?_, ?_, rfl, ?_, ?_⟩
  · unfold MemoryBroker.consume
    rw [holds]
  · intro name _
    exact (List.append_nil _).symm
  · exact (List.append_nil _).symm
  · intro i member
    cases member
  · intro x member
    cases member

/-- A delivery before what is left of a run. -/
theorem Drains.cons {published : Nat → Stored} {rest : Pending} {b taken : MemoryBroker} {out : Consumption W}
    {origin : List Nat} {i attempt : Nat} {t : Turn} {again : List Nat} {b' : MemoryBroker}
    (drained : Drains queue dlq delays published (rest ++ again.map fun k => (i, k)) b' out origin)
    (same : ∀ name, queue ≠ name → taken.queue name = b.queue name) (kept : taken.scheduledDelays = b.scheduledDelays)
    (disposed : MemoryBroker.Disposed queue dlq delays t taken b') (single : i ∉ rest.map Prod.fst)
    (tells : ∀ rest, (again = [] → rest = []) → (∀ k ∈ again, Story queue delays (published i) k rest) →
      Story queue delays (published i) attempt (t :: rest)) :
    Drains queue dlq delays published ((i, attempt) :: rest) b { out with turns := t :: out.turns } (i :: origin) where
  raised := drained.raised
  empty := drained.empty
  others name other := by
    have after := drained.others name other
    rw [disposed.queues, if_neg other, List.nil_append, same name other, List.append_assoc] at after
    rw [List.flatMap_cons]
    exact after
  scheduled := by
    have after := drained.scheduled
    rw [disposed.scheduled, kept, List.append_assoc] at after
    rw [List.filterMap_cons]
    refine after.trans ?_
    cases t.scheduled delays <;> rfl
  aligned := congrArg (· + 1) drained.aligned
  known j member := by
    rw [List.map_cons]
    rcases List.mem_cons.mp member with rfl | member
    · exact List.mem_cons_self
    · have inside := drained.known j member
      rw [List.map_append, List.mem_append] at inside
      rcases inside with old | back
      · exact List.mem_cons_of_mem _ old
      · obtain ⟨x, again, rfl⟩ := List.mem_map.mp back
        obtain ⟨k, _, rfl⟩ := List.mem_map.mp again
        exact List.mem_cons_self
  story x member := by
    rw [turnsOf_cons]
    rcases List.mem_cons.mp member with rfl | member
    · rw [if_pos rfl]
      apply tells
      · intro ends
        apply turnsOf_other
        intro inside
        have known := drained.known i inside
        rw [ends] at known
        simp only [List.map_nil, List.append_nil] at known
        exact single known
      · intro k back
        exact drained.story (i, k) (List.mem_append_right _ (List.mem_map_of_mem back))
    · have other : i ≠ x.1 := fun same => single (same ▸ List.mem_map_of_mem member)
      rw [if_neg other]
      exact drained.story x (List.mem_append_left _ member)

/-- The induction is on the deliveries that are left: a message that goes back has one less. -/
theorem drains (numbered : delays.length + 1 < 10 ^ c.numerals.maxStrDigits)
    (elsewhere : ∀ w m, ∀ put ∈ (handler w m).2.published, put.1 ≠ queue) (published : Nat → Stored) (n : Nat) :
    ∀ (pending : Pending) (b : MemoryBroker) (w : W), pending.weight delays ≤ n → b.Serves queue delays dlq →
      (pending.map Prod.fst).Nodup →
      (∀ x ∈ pending, Dict.get (published x.1).headers attemptHeader = none ∧ 1 ≤ x.2 ∧ x.2 ≤ delays.length + 1) →
      (b.queue queue = pending.map fun x => (published x.1).under x.2) →
      ∃ out origin, (∀ turns, pending.weight delays ≤ turns →
          MemoryBroker.consume c queue handler turns (b, w) = some out) ∧
        Drains queue dlq delays published pending b out origin := by
  induction n with
  | zero =>
      intro pending b w light serves distinct numbers holds
      cases pending with
      | nil => exact drains_nil holds
      | cons x rest =>
          have bounded := (numbers x List.mem_cons_self).2.2
          rw [Pending.weight, List.map_cons, List.sum_cons] at light
          omega
  | succ n ih =>
      intro pending b w light serves distinct numbers holds
      cases pending with
      | nil => exact drains_nil holds
      | cons x rest =>
          obtain ⟨i, attempt⟩ := x
          obtain ⟨fresh, counted, bounded⟩ := numbers _ List.mem_cons_self
          have reads := attemptOf_under fresh counted (readable numbered bounded)
          -- the delivery
          let stored := (published i).under attempt
          let taken := b.setQueue queue (rest.map fun x => (published x.1).under x.2)
          let t : Turn := { msg := incoming queue stored attempt, handling := (handler w (incoming queue stored attempt)).2 }
          have disposed := MemoryBroker.dispatch_disposed (b := taken) (serves.congr rfl rfl) stored attempt t.handling
          have delivers : t.Delivers queue (published i) attempt := rfl
          obtain ⟨again, requeued, goes, tells⟩ := @Story.next _ delays _ _ _ delivers counted bounded
          -- what is pending after it
          have left : (taken.dispatch queue stored attempt t.handling).queue queue =
              (rest ++ again.map fun k => (i, k)).map fun x => (published x.1).under x.2 := by
            have own : MemoryBroker.sentTo queue t.handling.published = [] := by
              rw [MemoryBroker.sentTo, List.map_eq_nil_iff, List.filter_eq_nil_iff]
              intro put member
              simpa using elsewhere _ _ put member
            have queues := disposed.queues queue
            rw [if_pos rfl, if_neg serves.apart.symm, own, List.append_nil, List.nil_append] at queues
            refine queues.trans ?_
            rw [MemoryBroker.queue_setQueue, if_pos rfl, List.map_append, List.map_map]
            exact congrArg _ requeued
          rw [List.map_cons, List.nodup_cons] at distinct
          obtain ⟨single, distinct⟩ := distinct
          have tags : ((rest ++ again.map fun k => (i, k)).map Prod.fst).Nodup := by
            rcases goes with rfl | ⟨rfl, _⟩
            · simpa using distinct
            · rw [List.map_append, List.nodup_append]
              refine ⟨distinct, List.nodup_singleton _, fun j old k back same => single ?_⟩
              cases List.mem_singleton.mp back
              rwa [← same]
          have next : ∀ x ∈ rest ++ again.map fun k => (i, k), Dict.get (published x.1).headers attemptHeader = none ∧
              1 ≤ x.2 ∧ x.2 ≤ delays.length + 1 := by
            intro x member
            rcases List.mem_append.mp member with old | back
            · exact numbers x (List.mem_cons_of_mem _ old)
            · rcases goes with rfl | ⟨rfl, more⟩
              · cases back
              · cases List.mem_singleton.mp back
                exact ⟨fresh, Nat.le_add_left 1 attempt, Nat.succ_le_succ more⟩
          have lighter : Pending.weight delays (rest ++ again.map fun k => (i, k)) + 1 ≤
              Pending.weight delays ((i, attempt) :: rest) := by
            rw [weight_append]
            rcases goes with rfl | ⟨rfl, more⟩
            · simp only [Pending.weight, List.map_nil, List.sum_nil, List.map_cons, List.sum_cons]
              omega
            · simp only [Pending.weight, List.map_nil, List.sum_nil, List.map_cons, List.sum_cons]
              omega
          obtain ⟨out, origin, runs, drained⟩ := ih _ _ _ (by omega) disposed.serves tags next left
          refine ⟨{ out with turns := t :: out.turns }, i :: origin, fun turns enough => ?_, ?_⟩
          · cases turns with
            | zero => omega
            | succ turns =>
                unfold MemoryBroker.consume
                rw [holds]
                simp only [List.map_cons]
                rw [reads]
                simp only
                rw [runs turns (by omega)]
                rfl
          · have same : ∀ name, queue ≠ name → taken.queue name = b.queue name := by
              intro name other
              rw [MemoryBroker.queue_setQueue, if_neg other]
            exact @Drains.cons _ queue dlq delays published rest b taken out origin i attempt t again _ drained same rfl disposed
              single tells

end run

/-! ## Conservation -/

/-- The handler returned. -/
def Turn.succeeded (t : Turn) : Bool :=
  match t.handling.outcome with
  | .ok () => true
  | .error _ => false

/-- The message, as it was published but for its number: also a signature in it is as valid as it was. -/
structure Stored.Unaltered (m m' : Stored) : Prop where
  same : m.SameButAttempt m'
  signature : ∀ (p : Platform) (signer : Signer) (body : String), signer.verify p body m.headers = signer.verify p body m'.headers

/-- The deliveries of a message that was published: numbered from 1, one more than there are steps at
most, delayed by these steps, and over with one success or one dead letter. -/
structure Conserved (queue : String) (delays : List PyFloat) (m : Stored) (l : List Turn) : Prop where
  attempts : l.map (fun t => t.msg.attempt) = (List.range l.length).map fun i : Nat => (1 : Int) + i
  bounded : 1 ≤ l.length ∧ l.length ≤ delays.length + 1
  delivered : ∀ t ∈ l, t.msg.queue = queue ∧ t.msg.toStored.Unaltered m
  ends : (l.countP Turn.succeeded = 1 ∧ l.flatMap (Turn.buried delays) = []) ∨
    (l.countP Turn.succeeded = 0 ∧ ∃ dead, l.flatMap (Turn.buried delays) = [dead] ∧ dead.Unaltered m)
  delayed : l.filterMap (Turn.scheduled delays) <+: delays

theorem unaltered_under (m : Stored) (attempt : Nat) : (m.under attempt).Unaltered m where
  same := sameButAttempt_under m attempt
  signature p signer body := verify_under p signer body m attempt

theorem Story.ends {queue : String} {delays : List PyFloat} {m : Stored} {attempt : Nat} {l : List Turn}
    (story : Story queue delays m attempt l) (counted : 1 ≤ attempt) :
    (l.countP Turn.succeeded = 1 ∧ l.flatMap (Turn.buried delays) = []) ∨
      (l.countP Turn.succeeded = 0 ∧ ∃ dead, l.flatMap (Turn.buried delays) = [dead] ∧ dead.Unaltered m) := by
  induction story with
  | handled delivers returned =>
      refine .inl ⟨?_, ?_⟩
      · simp [Turn.succeeded, returned]
      · simp [(Turn.returned returned).2.2]
  | @buried attempt t e delivers raised last =>
      have number : t.msg.attempt = attempt := by rw [delivers]; rfl
      have spent : RetryPolicy.delayForAttempt { delays } t.msg.attempt = none := by
        rw [number, RetryPolicy.delayForAttempt, if_neg]
        simp only
        omega
      refine .inr ⟨?_, m.under attempt, ?_, unaltered_under m attempt⟩
      · simp [Turn.succeeded, raised]
      · simp only [List.flatMap_cons, (Turn.exhausted raised spent).2.2, List.flatMap_nil, List.append_nil]
        rw [delivers]
        rfl
  | @retried attempt t e rest delivers raised more then_ ih =>
      have number : t.msg.attempt = attempt := by rw [delivers]; rfl
      have due : (RetryPolicy.delayForAttempt { delays } t.msg.attempt).isSome := by
        rw [RetryPolicy.delayForAttempt_isSome, number]
        exact ⟨by omega, Int.ofNat_le.mpr more⟩
      obtain ⟨delay, due⟩ := Option.isSome_iff_exists.mp due
      have failed : t.succeeded = false := by simp [Turn.succeeded, raised]
      rw [List.countP_cons_of_neg (by simp [failed]), List.flatMap_cons, (Turn.retried raised due).2.2, List.nil_append]
      exact ih (Nat.le_add_left 1 attempt)

theorem Story.conserved {queue : String} {delays : List PyFloat} {m : Stored} {l : List Turn}
    (story : Story queue delays m 1 l) : Conserved queue delays m l where
  attempts := story.numbered
  bounded := by
    have length := story.length (Nat.le_add_left 1 _)
    omega
  delivered := by
    intro t member
    obtain ⟨k, delivers⟩ := story.delivers t member
    rw [delivers]
    exact ⟨rfl, unaltered_under m k⟩
  ends := story.ends (le_refl 1)
  delayed := story.delays_prefix (le_refl 1)

/-- Every message of the queue is delivered, numbered and delayed as the steps say, and handled once or buried
once; the queue is empty and nothing else is in the other queues than what was there, what the handler has
published, and the dead letters. -/
theorem retry_conserves {W : Type} (p : Platform) (c : Codec) {b : MemoryBroker} {queue dlq : String} {steps : List String}
    {delays : List PyFloat} {handler : Handler W} (w : W)
    (valid : steps.mapM (Retry.parseDuration p c.numerals) = .ok delays) (serves : b.Serves queue delays dlq)
    (numbered : steps.length + 1 < 10 ^ c.numerals.maxStrDigits)
    (elsewhere : ∀ w m, ∀ put ∈ (handler w m).2.published, put.1 ≠ queue)
    (fresh : ∀ m ∈ b.queue queue, Dict.get m.headers attemptHeader = none) :
    ∃ (out : Consumption W) (origin : List Nat),
      (∀ turns, (b.queue queue).length * (steps.length + 1) ≤ turns →
        MemoryBroker.consume c queue handler turns (b, w) = some out) ∧
      out.raised = none ∧ out.broker.queue queue = [] ∧
      (∀ name, queue ≠ name → out.broker.queue name = b.queue name ++ out.turns.flatMap fun t =>
        MemoryBroker.sentTo name t.handling.published ++ if dlq = name then t.buried delays else []) ∧
      out.broker.scheduledDelays = b.scheduledDelays ++ out.turns.filterMap (Turn.scheduled delays) ∧
      origin.length = out.turns.length ∧ (∀ i ∈ origin, i < (b.queue queue).length) ∧
      ∀ i m, (b.queue queue)[i]? = some m → Conserved queue delays m (turnsOf i origin out.turns) := by
  have counted : delays.length = steps.length := (forall₂_of_mapM valid).length_eq.symm
  let ms := b.queue queue
  let published : Nat → Stored := fun i => ms[i]?.getD { body := [] }
  let pending : Pending := (List.range ms.length).map fun i => (i, 1)
  have holds : b.queue queue = pending.map fun x => (published x.1).under x.2 := by
    rw [List.map_map]
    apply List.ext_getElem
    · simp [ms]
    · intro i inside _
      simp only [List.getElem_map, List.getElem_range, Function.comp_apply, Stored.under, le_refl, if_true, published, ms]
      rw [List.getElem?_eq_getElem inside]
      rfl
  have tags : pending.map Prod.fst = List.range ms.length := by
    rw [List.map_map]
    exact (List.map_congr_left fun _ _ => rfl).trans (List.map_id _)
  have weight : pending.weight delays = ms.length * (steps.length + 1) := by
    simp only [Pending.weight, pending, List.map_map, Function.comp_def, List.map_const', List.sum_replicate_nat,
      List.length_range, counted]
    rfl
  have numbers : ∀ x ∈ pending, Dict.get (published x.1).headers attemptHeader = none ∧ 1 ≤ x.2 ∧ x.2 ≤ delays.length + 1 := by
    intro x member
    obtain ⟨i, inside, rfl⟩ := List.mem_map.mp member
    refine ⟨fresh _ ?_, le_refl 1, Nat.le_add_left 1 _⟩
    simp only [published]
    rw [List.getElem?_eq_getElem (List.mem_range.mp inside)]
    exact List.getElem_mem _
  obtain ⟨out, origin, runs, drained⟩ := @drains _ c _ _ _ handler (by rw [counted]; exact numbered) elsewhere published _
    pending b w (le_refl _) serves (by rw [tags]; exact List.nodup_range) numbers holds
  rw [weight] at runs
  refine ⟨out, origin, runs, drained.raised, drained.empty, drained.others, drained.scheduled, drained.aligned, ?_, ?_⟩
  · intro i member
    have known := drained.known i member
    rw [tags] at known
    exact List.mem_range.mp known
  · intro i m found
    obtain ⟨inside, at_index⟩ := List.getElem?_eq_some_iff.mp found
    have story := drained.story (i, 1) (List.mem_map.mpr ⟨i, List.mem_range.mpr inside, rfl⟩)
    simp only [published, ms] at story
    rw [found] at story
    exact story.conserved

end Transport

namespace Sample

open Transport

/-- A queue with one retry and dead letters. -/
def retryingQueue : QueueSpec := { name := "tasks", dlqName := some "tasks.dead", retrySteps := ["5s"] }

def retrying : MemoryBroker := (MemoryBroker.ensureTopology platform codec.numerals [retryingQueue] {}).1

/-- A handler that has done every message but the first delivery of one. -/
def second (w : Nat) (_ : Transport.IncomingMessage) : Nat × Handling :=
  (w + 1, { outcome := if w = 0 then .error failure else .ok () })

end Sample

open Transport Sample Data in
/-- The greeting is delivered, and delivered again. -/
theorem retry_conserves_greeting : ∃ (delays : List PyFloat) (out : Consumption Nat) (origin : List Nat),
    out.broker.queue "tasks" = [] ∧ Conserved "tasks" delays greeting (turnsOf 0 origin out.turns) := by
  have ensured : (MemoryBroker.ensureTopology platform codec.numerals [retryingQueue] {}) = (retrying, .ok ()) := by
    rfl
  obtain ⟨delays, valid, serves⟩ := @MemoryBroker.serves_of_ensure _ _ _ _ _ "tasks.dead" rfl (by decide) (by decide) ensured
  have held : (retrying.publish "tasks" greeting).queue "tasks" = [greeting] := by
    rw [MemoryBroker.queue_publish]
    rfl
  have numbered : retryingQueue.retrySteps.length + 1 < 10 ^ codec.numerals.maxStrDigits :=
    Nat.lt_of_lt_of_le (by decide : 2 < 10 ^ 1) (Nat.pow_le_pow_right (by decide) (by decide))
  have fresh : ∀ m ∈ (retrying.publish "tasks" greeting).queue "tasks", Dict.get m.headers attemptHeader = none := by
    rw [held]
    intro m member
    cases List.mem_singleton.mp member
    rfl
  obtain ⟨out, origin, _, _, empty, _, _, _, _, conserved⟩ := @retry_conserves _ platform codec (retrying.publish "tasks" greeting) _ _ _ _ Sample.second 0
    valid (serves.congr rfl rfl) numbered (by simp [Sample.second]) fresh
  exact ⟨delays, out, origin, empty, conserved 0 greeting (congrArg List.head? held)⟩

end Maof
