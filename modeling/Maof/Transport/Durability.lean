import Maof.Effects.Custody
import Maof.Transport.Brokers

/-!
# Nothing is lost

The adapters over brokers that survive their consumers: what a broker stores,
what a consumer is given of it and what every call of an adapter leaves. Calls
may fail before or after they took effect, and a consumer may die between any two
of them. A message that was published is still stored, its handler has returned,
or a handler failed with no retry and no dead letters left.
-/

namespace Maof
namespace Transport

open Effects (Sig Act Prog Machine Pool Protocol Label)

/-- What stays of a message that is packed, numbered and moved. -/
inductive Identity where
  | readable (body : Bytes) (messageId : String)
  | unreadable (raw : Bytes)
deriving DecidableEq

def Stored.identity (m : Stored) : Identity := .readable m.body m.messageId

def identityOf (c : Codec) (raw : Bytes) : Identity :=
  match unpack c raw with
  | .ok m => m.identity
  | .error _ => .unreadable raw

/-- A broker as an adapter uses it: what it stores, what it hands out, and what the calls of the
adapter do to it. `move` is what the broker does by itself. -/
structure Backend where
  State : Type
  /-- A message as the broker stores it. -/
  Content : Type
  /-- What a consumer holds of a message it was given. -/
  Receipt : Type
  Move : Type
  init : State
  contents : State → List Content
  identity : Content → Identity
  content : Receipt → Content
  pack : Stored → Content
  put : State → String → Content → State
  receive : State → String → List (Nat × Bool) → State × List Receipt
  apply : State → Receipt → BrokerOp → State
  move : State → Move → State
  deliver : Receipt → BrokerM Unit
  /-- Whether a failed handler leaves the message nowhere to go. -/
  exhausted : IncomingMessage → Bool

/-! ## Consumers and publishers over one broker -/

inductive QueueOp (b : Backend) where
  | publish (queue : String) (m : Stored)
  | receive (queue : String)
  | call (r : b.Receipt) (op : BrokerOp)

abbrev QueueOp.Ans {b : Backend} : QueueOp b → Type
  | .publish _ _ => Unit
  | .receive _ => List b.Receipt
  | .call _ _ => Unit

abbrev QueueSig (b : Backend) : Sig := ⟨QueueOp b, QueueOp.Ans, Exn⟩

/-- The broker, and the history of its messages. -/
structure Traffic (b : Backend) where
  state : b.State
  published : List Identity := []
  handled : List Identity := []
  abandoned : List Identity := []

/-- What is decided about one call: the messages received, how the handler ends, and whether the
call raises, after it took effect or before. -/
structure Circumstance where
  picks : List (Nat × Bool) := []
  outcome : Except Exn Unit := .ok ()
  fault : Option (Exn × Bool) := none

namespace Backend

variable (b : Backend)

def faulted {α : Type} (fault : Option (Exn × Bool)) (before after : Traffic b) (a : α) : Traffic b × Except Exn α :=
  match fault with
  | none => (after, .ok a)
  | some (e, true) => (after, .error e)
  | some (e, false) => (before, .error e)

def perform (t : Circumstance) (w : Traffic b) : (op : QueueOp b) → Traffic b × Except Exn op.Ans
  | .publish queue m => b.faulted t.fault w { w with
      state := b.put w.state queue (b.pack m)
      published := w.published ++ [b.identity (b.pack m)] } ()
  | .receive queue => b.faulted t.fault w { w with state := (b.receive w.state queue t.picks).1 }
      (b.receive w.state queue t.picks).2
  | .call _ (.handle msg) => match t.outcome with
      | .ok () => ({ w with handled := w.handled ++ [msg.identity] }, .ok ())
      | .error e =>
          if b.exhausted msg then ({ w with abandoned := w.abandoned ++ [msg.identity] }, .error e) else (w, .error e)
  | .call r op => b.faulted t.fault w { w with state := b.apply w.state r op } ()

/-- The adapter on one message of those received. -/
def dispatch (r : b.Receipt) : Act (QueueSig b) Unit Unit := fun u =>
  (b.deliver r u).lift (T := QueueSig b) (fun op => .call r op) fun _ reply => reply

def dispatchAll : List b.Receipt → Act (QueueSig b) Unit Unit
  | [] => return ()
  | r :: rs => do
      b.dispatch r
      dispatchAll rs

/-- The loop of `consume`, as many turns of it as the consumer lives to see. -/
def consume (queue : String) : Nat → Act (QueueSig b) Unit Unit
  | 0 => return ()
  | turns + 1 => do
      let received ← Act.await (S := QueueSig b) (.receive queue)
      b.dispatchAll received
      consume queue turns

inductive Client where
  | publisher (queue : String) (m : Stored)
  | consumer (queue : String) (turns : Nat)

def program : Client → Prog (QueueSig b) (Except Exn Unit)
  | .publisher queue m => ((Act.await (S := QueueSig b) (.publish queue m) : Act (QueueSig b) Unit Unit) ()).bind
      fun out => .ret out.1
  | .consumer queue turns => (b.consume queue turns ()).bind fun out => .ret out.1

/-- Publishers and consumers in any number, interleaved at their calls. -/
def machine {G : Type} (fresh : G) (mark : G → (op : QueueOp b) → Except Exn op.Ans → G) :
    Machine (QueueSig b) (Traffic b) Circumstance Client b.Move G where
  perform := b.perform
  program := b.program
  env e w := { w with state := b.move w.state e }
  tag _ := fresh
  mark

/-- The machine with nothing kept beside its processes. -/
def system : Machine (QueueSig b) (Traffic b) Circumstance Client b.Move Unit := b.machine () fun _ _ _ => ()

def start (G : Type) : Pool (QueueSig b) (Traffic b) G := { world := { state := b.init }, procs := [] }

/-- How many copies of a message the broker stores. -/
def copies (k : Identity) (st : b.State) : Nat := ((b.contents st).map b.identity).count k

end Backend

section abandoned

variable {b : Backend} (never : ∀ msg, b.exhausted msg = false)

include never

end abandoned

namespace Traffic

variable {b : Backend} (k : Identity) (w : Traffic b)

/-- How often a message was published. -/
def owed : Nat := w.published.count k

/-- The copies of a message that are stored, the handlers that returned on it, and the handlers
that failed with nothing left to do. -/
def backing : Nat := b.copies k w.state + w.handled.count k + w.abandoned.count k

end Traffic

/-! ## The accounts of a broker -/

/-- What is counted of a broker: the calls that put a message, those that give one up, and what the
holder of a receipt may still give up. -/
structure Accounts (b : Backend) where
  puts : BrokerOp → Option (String × b.Content)
  settles : b.Receipt → BrokerOp → Bool
  credit : b.State → b.Receipt → Nat
  /-- What is left to the holder of a receipt once it gave the message up. -/
  left : b.Receipt → Option b.Receipt
  credit_le : ∀ st r, credit st r ≤ 1
  left_cases : ∀ r, left r = none ∨ left r = some r
  copies_put : ∀ k st queue x, b.copies k (b.put st queue x) = b.copies k st + if b.identity x = k then 1 else 0
  credit_put : ∀ st queue x r, credit (b.put st queue x) r ≤ credit st r
  copies_receive : ∀ k st queue picks, b.copies k (b.receive st queue picks).1 = b.copies k st
  credit_receive : ∀ st queue picks r, credit (b.receive st queue picks).1 r ≤ credit st r
  copies_move : ∀ k st e, b.copies k (b.move st e) = b.copies k st
  credit_move : ∀ st e r, credit (b.move st e) r ≤ credit st r
  credit_apply : ∀ st r op r', credit (b.apply st r op) r' ≤ credit st r'
  copies_puts : ∀ k st r op queue x, puts op = some (queue, x) →
    b.copies k st + (if b.identity x = k then 1 else 0) ≤ b.copies k (b.apply st r op)
  copies_keeps : ∀ k st r op, settles r op = false → b.copies k st ≤ b.copies k (b.apply st r op)
  copies_settles : ∀ st r op, settles r op = true →
    (∀ k, k ≠ b.identity (b.content r) → b.copies k st ≤ b.copies k (b.apply st r op)) ∧
    b.copies (b.identity (b.content r)) st + ((left r).map (credit (b.apply st r op))).getD 0 ≤
      b.copies (b.identity (b.content r)) (b.apply st r op) + credit st r

namespace Accounts

variable {b : Backend} (a : Accounts b)

def credited (k : Identity) (w : Traffic b) : Option b.Receipt → Nat
  | some r => if b.identity (b.content r) = k then a.credit w.state r else 0
  | none => 0

/-- An adapter hands over the message it was given, puts only copies of it, and gives it up once it
has disposed of it. -/
def custody : Protocol (QueueSig b) (Option b.Receipt) where
  allowed
    | _, .call r (.handle msg) => msg.identity = b.identity (b.content r)
    | g, .call r op => (∀ queue x, a.puts op = some (queue, x) → b.identity x = b.identity (b.content r)) ∧
        (a.settles r op = true → g = some r)
    | _, _ => True
  answers _ _ := True
  mark
    | _, .call r (.handle _), .ok () => some r
    | _, .call r (.handle msg), .error _ => if b.exhausted msg then some r else none
    | g, .call r op, .ok () =>
        if (a.puts op).isSome then some r else if a.settles r op then a.left r else g
    | g, .call r op, .error _ => if a.settles r op then a.left r else g
    | g, _, _ => g

/-- The machine, with what a process may still give up kept beside it. -/
def machine : Machine (QueueSig b) (Traffic b) Circumstance Backend.Client b.Move (Option b.Receipt) :=
  b.machine none a.custody.mark

section custody

variable {k : Identity} {w : Traffic b}

section call

variable {t : Circumstance} {r : b.Receipt} {op : BrokerOp} {g : Option b.Receipt} (plain : ∀ msg, op ≠ .handle msg)

include plain

theorem call_allowed (copies : ∀ queue x, a.puts op = some (queue, x) → b.identity x = b.identity (b.content r))
    (owned : a.settles r op = true → g = some r) : a.custody.allowed g (.call r op) := by
  cases op with
  | handle msg => exact absurd rfl (plain msg)
  | _ => exact ⟨copies, owned⟩

theorem mark_ok (u : Unit) : a.custody.mark g (.call r op) (.ok u) =
    if (a.puts op).isSome then some r else if a.settles r op then a.left r else g := by
  cases op with
  | handle msg => exact absurd rfl (plain msg)
  | _ => rfl

end call

end custody

/-- The custody of messages, as the adapter sees it that was given one of them. -/
def onOne (r : b.Receipt) : Protocol BrokerSig (Option b.Receipt) :=
  a.custody.pulled (S := BrokerSig) (fun op => .call r op) (fun _ reply => reply) fun _ reply => reply

/-- The adapter does with a message it was given only what the accounts allow. -/
def Careful : Prop := ∀ r g, (b.deliver r).Follows (a.onOne r) (fun _ _ _ => True) () g

variable {a}

theorem Careful.dispatchAll (careful : a.Careful) (rs : List b.Receipt) (g : Option b.Receipt) :
    (b.dispatchAll rs).Follows a.custody (fun _ _ _ => True) () g := by
  induction rs generalizing g with
  | nil => trivial
  | cons r rs ih =>
      have first : (b.dispatch r).Follows a.custody (fun _ _ _ => True) () g :=
        Prog.Follows.lift (fun _ _ => rfl) (careful r g)
      exact Act.follows_bind first (fun _ _ g' _ => ih g') fun _ _ _ => id

theorem Careful.consume (careful : a.Careful) (queue : String) (turns : Nat) (g : Option b.Receipt) :
    (b.consume queue turns).Follows a.custody (fun _ _ _ => True) () g := by
  induction turns generalizing g with
  | zero => trivial
  | succ turns ih =>
      refine Act.follows_await_bind trivial (fun received _ => ?_) fun _ _ => trivial
      exact Act.follows_bind (careful.dispatchAll received g) (fun _ _ g' _ => ih g') fun _ _ _ => id

theorem Careful.program (careful : a.Careful) (client : Backend.Client) (g : Option b.Receipt) :
    (b.program client).Follows a.custody (fun _ _ => True) g := by
  cases client with
  | publisher queue m => exact ⟨trivial, fun _ _ => trivial⟩
  | consumer queue turns => exact Prog.Follows.bind (careful.consume queue turns g) fun _ _ _ => trivial

end Accounts

end Transport
end Maof
