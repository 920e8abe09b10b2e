import Maof.Transport.Durability

/-!
# The brokers that survive

Redis keeps a message on a list of those in progress while it is handled, SQS and
RabbitMQ keep it until its receipt is handed back, Kafka until its offset is
committed. Each of them has accounts, and each adapter is careful with them.
-/

namespace Maof
namespace Transport

open Effects (Act Prog Machine Pool)

variable {c : Codec} {t : String → Topology}

/-- What the adapters write of a message they read is read back. -/
structure Codec.Rereads (c : Codec) : Prop where
  same : ∀ raw m, unpack c raw = .ok m → c.loads (c.dumps (payload m)) = .ok (payload m)
  retried : ∀ raw m attempt, unpack c raw = .ok m → attemptOf c m.headers = .ok attempt →
    c.loads (c.dumps (payload (m.retried attempt))) = .ok (payload (m.retried attempt))

section identity

theorem identityOf_received {raw : Bytes} {m : Stored} {attempt : Int} (read : received c raw = .ok (m, attempt)) :
    unpack c raw = .ok m ∧ attemptOf c m.headers = .ok attempt := by
  obtain ⟨m', unpacked, rest⟩ := ok_of_bind read
  obtain ⟨attempt', number, same⟩ := ok_of_bind rest
  cases same
  exact ⟨unpacked, number⟩

theorem identityOf_unpack {raw : Bytes} {m : Stored} (read : unpack c raw = .ok m) : identityOf c raw = m.identity := by
  rw [identityOf, read]

theorem Codec.Rereads.identity_pack (rereads : c.Rereads) {raw : Bytes} {m : Stored} (read : unpack c raw = .ok m) :
    identityOf c (pack c m) = m.identity :=
  identityOf_unpack (unpack_pack (nodup_of_unpack read) (rereads.same raw m read))

theorem Codec.Rereads.identity_retried (rereads : c.Rereads) {raw : Bytes} {m : Stored} {attempt : Int}
    (read : unpack c raw = .ok m) (number : attemptOf c m.headers = .ok attempt) :
    identityOf c (pack c (m.retried attempt)) = m.identity := by
  have distinct : (Data.Dict.keys (m.retried attempt).headers).Nodup := Data.Dict.nodup_set (nodup_of_unpack read) _ _
  rw [identityOf_unpack (unpack_pack distinct (rereads.retried raw m attempt read number))]
  rfl

end identity

/-- No retry is left, and no queue of dead letters. -/
def Topology.exhausted (t : Topology) (attempt : Int) : Bool := (t.delay attempt).isNone && t.dlq.isNone

section adapters

variable {b : Backend} {a : Accounts b} {r : b.Receipt}

/-- The piece disposes of the message, unless it raises. -/
def Disposed (r : b.Receipt) (out : Except Exn Unit) (_ : Unit) (g : Option b.Receipt) : Prop := out = .ok () → g = some r

/-- A handler that returns disposes of its message; one that fails leaves it to the branch for failures. -/
theorem follows_handle {post : Except Exn Unit → Unit → Option b.Receipt → Prop} {msg : IncomingMessage}
    {g : Option b.Receipt} (given : msg.identity = b.identity (b.content r)) (returned : post (.ok ()) () (some r))
    (failed : ∀ e, post (.error e) () (if b.exhausted msg then some r else none)) :
    (brokerCall (.handle msg)).Follows (a.onOne r) post () g := by
  refine Act.follows_await given fun reply _ => ?_
  cases reply with
  | ok u => exact returned
  | error e => exact failed e

/-- An adapter reads the message it was given, or raises with it in its hands. -/
theorem follows_received {raw : Bytes} {k : Stored × Int → BrokerM Unit} {g : Option b.Receipt}
    {post : Except Exn Unit → Unit → Option b.Receipt → Prop} (raised : ∀ e, post (.error e) () g)
    (rest : ∀ m attempt, unpack c raw = .ok m → attemptOf c m.headers = .ok attempt →
      (k (m, attempt)).Follows (a.onOne r) post () g) :
    (do k (← Act.ofExcept (S := BrokerSig) (received c raw))).Follows (a.onOne r) post () g := by
  cases read : received c raw with
  | ok pair =>
      have known : unpack c raw = .ok pair.1 ∧ attemptOf c pair.1.headers = .ok pair.2 := identityOf_received read
      exact rest pair.1 pair.2 known.1 known.2
  | error e => exact raised e

/-- A copy of the message is put, and nothing is left to dispose of. -/
theorem follows_put {op : BrokerOp} {queue : String} {x : b.Content} {g : Option b.Receipt} (plain : ∀ msg, op ≠ .handle msg)
    (puts : a.puts op = some (queue, x)) (settles : a.settles r op = false)
    (same : b.identity x = b.identity (b.content r)) : (brokerCall op).Follows (a.onOne r) (Disposed r) () g := by
  have allowed : (a.onOne r).allowed g op := by
    apply a.call_allowed plain
    · intro queue' x' puts'
      rw [puts] at puts'
      cases puts'
      exact same
    · intro settles'
      rw [settles] at settles'
      cases settles'
  refine Act.follows_await allowed fun reply _ => ?_
  cases reply with
  | ok u =>
      intro _
      have marked := a.mark_ok (g := g) (r := r) plain u
      rw [puts] at marked
      exact marked
  | error e => exact nofun

/-- The message is given up by whom it was disposed of. -/
theorem follows_settle {op : BrokerOp} (plain : ∀ msg, op ≠ .handle msg) (puts : a.puts op = none) :
    (brokerCall op).Follows (a.onOne r) (fun _ _ _ => True) () (some r) := by
  refine Act.follows_await ?_ fun _ _ => trivial
  apply a.call_allowed plain
  · intro queue x puts'
    rw [puts] at puts'
    cases puts'
  · intro _
    rfl

end adapters

/-! ## Redis -/

namespace RedisStreamsBroker

/-- The lists of the server: the entries of a list stand in their order, the left end first. -/
abbrev Lists : Type := List (String × Bytes)

def lpush (lists : Lists) (key : String) (raw : Bytes) : Lists := (key, raw) :: lists

def processing (queue : String) : String := queue ++ ".processing"

/-- `BLMOVE source destination RIGHT LEFT`, which times out on an empty list. -/
def blmove (lists : Lists) (source destination : String) : Lists × Option Bytes :=
  match lists.reverse.find? fun entry => entry.1 = source with
  | some entry => (lpush (lists.reverse.erase entry).reverse destination entry.2, some entry.2)
  | none => (lists, none)

/-- `LREM key 1 raw`. -/
def lrem (lists : Lists) (key : String) (raw : Bytes) : Lists := lists.erase (key, raw)

def backend (c : Codec) (t : String → Topology) : Backend where
  State := Lists
  Content := Bytes
  Receipt := String × Bytes
  Move := Empty
  init := []
  contents lists := lists.map Prod.snd
  identity := identityOf c
  content := Prod.snd
  pack := Transport.pack c
  put := lpush
  receive lists queue _ :=
    ((blmove lists queue (processing queue)).1, (blmove lists queue (processing queue)).2.toList.map fun raw => (queue, raw))
  apply
    | lists, _, .lpush key raw => lpush lists key raw
    | lists, r, .lrem => lrem lists (processing r.1) r.2
    | lists, _, _ => lists
  move lists _ := lists
  deliver r := deliver c (t r.1) r.1 r.2
  exhausted msg := (t msg.queue).exhausted msg.attempt

section accounts

variable {k : Identity} {lists : Lists}

theorem copies_lpush (key : String) (raw : Bytes) :
    (backend c t).copies k (lpush lists key raw) = (backend c t).copies k lists + if identityOf c raw = k then 1 else 0 := by
  simp only [Backend.copies, backend, lpush, List.map_cons, List.count_cons, beq_iff_eq]

/-- Taking an entry out takes one copy of its message. -/
theorem copies_erase {lists : Lists} {entry : String × Bytes} (member : entry ∈ lists) :
    (backend c t).copies k lists = (backend c t).copies k (lists.erase entry) + if identityOf c entry.2 = k then 1 else 0 := by
  have split := ((List.perm_cons_erase member).map fun e => identityOf c e.2).count_eq k
  simp only [Backend.copies, backend, List.map_map, Function.comp_def] at split ⊢
  rw [split, List.map_cons, List.count_cons]
  simp only [beq_iff_eq]

theorem copies_reverse (lists : Lists) : (backend c t).copies k lists.reverse = (backend c t).copies k lists :=
  ((lists.reverse_perm.map Prod.snd).map (identityOf c)).count_eq k

theorem copies_blmove (source destination : String) :
    (backend c t).copies k (blmove lists source destination).1 = (backend c t).copies k lists := by
  unfold blmove
  split
  · next entry found =>
      have member := List.mem_of_find?_eq_some found
      rw [copies_lpush, copies_reverse, ← copies_erase member, copies_reverse]
  · rfl

theorem copies_lrem (key : String) (raw : Bytes) :
    (backend c t).copies k lists ≤ (backend c t).copies k (lrem lists key raw) + if identityOf c raw = k then 1 else 0 := by
  unfold lrem
  by_cases member : (key, raw) ∈ lists
  · exact (copies_erase member).le
  · rw [List.erase_of_not_mem member]
    exact Nat.le_add_right _ _

end accounts

/-- An entry is taken off its list by its value, so who has done so may take no other. -/
def accounts (c : Codec) (t : String → Topology) : Accounts (backend c t) where
  puts
    | .lpush key raw => some (key, raw)
    | _ => none
  settles
    | _, .lrem => true
    | _, _ => false
  credit _ _ := 1
  left _ := none
  credit_le _ _ := le_refl _
  left_cases _ := .inl rfl
  copies_put _ _ key raw := copies_lpush key raw
  credit_put _ _ _ _ := le_refl _
  copies_receive _ _ queue _ := copies_blmove queue (processing queue)
  credit_receive _ _ _ _ := le_refl _
  copies_move _ _ _ := rfl
  credit_move _ _ _ := le_refl _
  credit_apply _ _ _ _ := le_refl _
  copies_puts k lists r op queue x puts := by
    cases op with
    | lpush key raw =>
        cases puts
        exact (copies_lpush _ _).ge
    | _ => cases puts
  copies_keeps k lists r op keeps := by
    cases op with
    | lpush key raw => exact (Nat.le_add_right _ _).trans (copies_lpush key raw).ge
    | lrem => cases keeps
    | _ => exact le_refl _
  copies_settles lists r op settles := by
    cases op with
    | lrem =>
        constructor
        · intro k other
          have taken := @copies_lrem c t k lists (processing r.1) r.2
          have another : ¬ identityOf c r.2 = k := fun same => other same.symm
          rwa [if_neg another] at taken
        · have taken := @copies_lrem c t (identityOf c r.2) lists (processing r.1) r.2
          rwa [if_pos rfl] at taken
    | _ => cases settles

theorem careful (rereads : c.Rereads) : (accounts c t).Careful := by
  intro r g
  unfold backend deliver dispatch
  refine Act.follows_bind (Q := Disposed r) ?_ (fun _ _ g' disposed => ?_) fun _ _ _ _ => trivial
  · refine follows_received (fun _ => nofun) fun m attempt unpacked number => ?_
    have given : m.identity = identityOf c r.2 := (identityOf_unpack unpacked).symm
    refine Act.follows_tryCatch (Q := fun out _ g' => (∀ u, out = .ok u → g' = some r) ∧
      ((t r.1).exhausted attempt = true → g' = some r)) ?_ ?_ ?_
    · refine follows_handle given ⟨fun _ _ => rfl, fun _ => rfl⟩ fun e => ⟨nofun, fun exhausted => ?_⟩
      exact if_pos exhausted
    · intro u _ g' disposed _
      exact disposed.1 u rfl
    · intro e _ g' disposed
      unfold Topology.exhausted at disposed
      cases retry : (t r.1).delay attempt with
      | some delay =>
          exact follows_put (fun _ => BrokerOp.noConfusion) rfl rfl ((rereads.identity_retried unpacked number).trans given)
      | none =>
          cases dead : (t r.1).dlq with
          | some dlq => exact follows_put (fun _ => BrokerOp.noConfusion) rfl rfl rfl
          | none =>
              rw [retry, dead] at disposed
              exact fun _ => disposed.2 rfl
  · rw [disposed rfl]
    exact follows_settle (fun _ => BrokerOp.noConfusion) rfl

end RedisStreamsBroker

/-! ## Messages with a place of their own -/

/-- Messages by the place each was put; the place is empty once the message is gone. -/
abbrev Mailbox (X : Type) : Type := List (Option (String × X))

/-- A message and the place it stands at. -/
structure Place (X : Type) where
  index : Nat
  queue : String
  content : X
  redelivered : Bool := false

namespace Mailbox

variable {X : Type} (identity : X → Identity)

def put (m : Mailbox X) (queue : String) (x : X) : Mailbox X := m ++ [some (queue, x)]

/-- The message that stands at a place, if it stands in this queue. -/
def offer (m : Mailbox X) (queue : String) (pick : Nat × Bool) : Option (Place X) :=
  match m[pick.1]? with
  | some (some (q, x)) =>
      if q = queue then some { index := pick.1, queue, content := x, redelivered := pick.2 } else none
  | _ => none

/-- A receipt is good for the message it was given with, while that stands. -/
def holds (m : Mailbox X) (r : Place X) : Bool :=
  match m[r.index]? with
  | some (some (q, x)) => q = r.queue && identity x = identity r.content
  | _ => false

def remove (m : Mailbox X) (r : Place X) : Mailbox X := if holds identity m r then m.set r.index none else m

/-- A message that is gone cannot be given up again. -/
def credit (m : Mailbox X) (r : Place X) : Nat :=
  match m[r.index]? with
  | some none => 0
  | _ => 1

def contents (m : Mailbox X) : List X := m.filterMap fun entry => entry.map Prod.snd

def copies (k : Identity) (m : Mailbox X) : Nat := ((contents m).map identity).count k

variable {identity} {k : Identity} {m : Mailbox X}

theorem credit_le (r : Place X) : credit m r ≤ 1 := by
  unfold credit
  split
  · exact Nat.zero_le _
  · exact le_refl _

/-- Places that only become empty give nobody more to give up. -/
theorem credit_of_empty {m' : Mailbox X} {r : Place X} (still : m[r.index]? = some none → m'[r.index]? = some none) :
    credit m' r ≤ credit m r := by
  unfold credit
  cases here : m[r.index]? with
  | none => exact credit_le r
  | some entry =>
      cases entry with
      | none =>
          rw [still here]
      | some e => exact credit_le r

theorem copies_put (queue : String) (x : X) :
    copies identity k (m.put queue x) = copies identity k m + if identity x = k then 1 else 0 := by
  have added : contents (m.put queue x) = contents m ++ [x] := by
    rw [contents, put, List.filterMap_append]
    rfl
  rw [copies, added, List.map_append, List.count_append, List.map_singleton, List.count_singleton]
  simp only [beq_iff_eq]
  rfl

theorem credit_put (queue : String) (x : X) (r : Place X) : credit (m.put queue x) r ≤ credit m r := by
  apply credit_of_empty
  intro empty
  rw [put, List.getElem?_append_left (List.getElem?_eq_some_iff.mp empty).1]
  exact empty

/-- A place that is emptied takes one copy of the message that stood there. -/
theorem copies_set {i : Nat} {queue : String} {x : X} (there : m[i]? = some (some (queue, x))) :
    copies identity k (m.set i none) + (if identity x = k then 1 else 0) = copies identity k m := by
  induction m generalizing i with
  | nil => cases there
  | cons entry m ih =>
      cases i with
      | zero =>
          cases there
          simp only [copies, contents, List.set_cons_zero, List.filterMap_cons, Option.map_none, Option.map_some,
            List.map_cons, List.count_cons, beq_iff_eq]
      | succ i =>
          have rest := ih (i := i) there
          cases entry with
          | none => exact rest
          | some e =>
              simp only [copies, contents, List.set_cons_succ, List.filterMap_cons, Option.map_some, List.map_cons,
                List.count_cons] at rest ⊢
              omega

theorem credit_set (i : Nat) (r : Place X) : credit (m.set i none) r ≤ credit m r := by
  apply credit_of_empty
  intro empty
  rw [List.getElem?_set]
  split
  · rw [if_pos (by
      next same =>
        rw [same]
        exact (List.getElem?_eq_some_iff.mp empty).1)]
  · exact empty

/-- What stands where a receipt is good. -/
theorem of_holds {r : Place X} (good : holds identity m r = true) :
    ∃ queue x, m[r.index]? = some (some (queue, x)) ∧ identity x = identity r.content := by
  unfold holds at good
  split at good
  · next q x there =>
      rw [Bool.and_eq_true, decide_eq_true_eq, decide_eq_true_eq] at good
      exact ⟨q, x, there, good.2⟩
  · cases good

theorem copies_set_of_holds {r : Place X} (good : holds identity m r = true) :
    copies identity k (m.set r.index none) + (if identity r.content = k then 1 else 0) = copies identity k m := by
  obtain ⟨queue, x, there, same⟩ := of_holds good
  rw [← same]
  exact copies_set there

theorem credit_remove (r r' : Place X) : credit (remove identity m r) r' ≤ credit m r' := by
  unfold remove
  split
  · exact credit_set r.index r'
  · exact le_refl _

/-- Who gives up a message has nothing of it left to give up. -/
theorem copies_remove (r : Place X) :
    (∀ k, k ≠ identity r.content → copies identity k m ≤ copies identity k (remove identity m r)) ∧
    copies identity (identity r.content) m + credit (remove identity m r) r ≤
      copies identity (identity r.content) (remove identity m r) + credit m r := by
  unfold remove
  by_cases good : holds identity m r = true
  · rw [if_pos good]
    obtain ⟨queue, x, there, same⟩ := of_holds good
    have inside := (List.getElem?_eq_some_iff.mp there).1
    have spent : credit (m.set r.index none) r = 0 := by
      unfold credit
      rw [List.getElem?_set_self inside]
    have had : credit m r = 1 := by
      unfold credit
      rw [there]
    constructor
    · intro k other
      have taken := copies_set_of_holds (k := k) good
      rw [if_neg (Ne.symm other)] at taken
      exact taken.ge
    · have taken := copies_set_of_holds (k := identity r.content) good
      rw [if_pos rfl] at taken
      rw [spent, had]
      omega
  · rw [if_neg good]
    exact ⟨fun _ _ => le_refl _, le_refl _⟩

end Mailbox

open Mailbox (remove)

/-! ## SQS -/

namespace SQSBroker

/-- A message that is received stays where it is until it is deleted. -/
def backend (c : Codec) (t : String → Topology) : Backend where
  State := Mailbox Bytes
  Content := Bytes
  Receipt := Place Bytes
  Move := Empty
  init := []
  contents := Mailbox.contents
  identity := identityOf c
  content := Place.content
  pack := Transport.pack c
  put := Mailbox.put
  receive m queue picks := (m, (picks.take 10).filterMap fun pick => Mailbox.offer m queue pick)
  apply
    | m, _, .sendMessage queueUrl raw _ => m.put queueUrl raw
    | m, r, .deleteMessage => remove (identityOf c) m r
    | m, _, _ => m
  move m _ := m
  deliver r := dispatch c (t r.queue) r.queue r.content
  exhausted _ := false

def accounts (c : Codec) (t : String → Topology) : Accounts (backend c t) where
  puts
    | .sendMessage queueUrl raw _ => some (queueUrl, raw)
    | _ => none
  settles
    | _, .deleteMessage => true
    | _, _ => false
  credit := Mailbox.credit
  left := some
  credit_le _ := Mailbox.credit_le
  left_cases _ := .inr rfl
  copies_put _ _ := Mailbox.copies_put
  credit_put _ := Mailbox.credit_put
  copies_receive _ _ _ _ := rfl
  credit_receive _ _ _ _ := le_refl _
  copies_move _ _ _ := rfl
  credit_move _ _ _ := le_refl _
  credit_apply m r op r' := by
    cases op with
    | sendMessage queueUrl raw delay => exact Mailbox.credit_put queueUrl raw r'
    | deleteMessage => exact Mailbox.credit_remove r r'
    | _ => exact le_refl _
  copies_puts k m r op queue x puts := by
    cases op with
    | sendMessage queueUrl raw delay =>
        cases puts
        exact (Mailbox.copies_put _ _).ge
    | _ => cases puts
  copies_keeps k m r op keeps := by
    cases op with
    | sendMessage queueUrl raw delay => exact (Nat.le_add_right _ _).trans (Mailbox.copies_put queueUrl raw).ge
    | deleteMessage => cases keeps
    | _ => exact le_refl _
  copies_settles m r op settles := by
    cases op with
    | deleteMessage => exact Mailbox.copies_remove r
    | _ => cases settles

/-- The deletion stands under the guard of the handler, so a message may be sent once more after it
was handled; it is never deleted before. -/
theorem careful (rereads : c.Rereads) : (accounts c t).Careful := by
  intro r g
  unfold backend
  refine follows_received (fun _ => trivial) fun m attempt unpacked number => ?_
  have given : m.identity = identityOf c r.content := (identityOf_unpack unpacked).symm
  have deleted : ∀ g', g' = some r →
      (brokerCall .deleteMessage).Follows ((accounts c t).onOne r) (fun _ _ _ => True) () g' := by
    rintro g' rfl
    exact follows_settle (fun _ => BrokerOp.noConfusion) rfl
  refine Act.follows_tryCatch (Q := fun _ _ _ => True) ?_ (fun _ _ _ _ => trivial) ?_
  · refine Act.follows_bind (Q := Disposed r) (follows_handle given (fun _ => rfl) fun _ => nofun) ?_ fun _ _ _ _ => trivial
    exact fun _ _ g' disposed => deleted g' (disposed rfl)
  · intro e _ g' _
    cases retry : (t r.queue).delay attempt with
    | some delay =>
        refine Act.follows_bind (Q := fun _ _ _ => True) (Act.follows_ofExcept trivial) ?_ fun _ _ _ _ => trivial
        intro seconds _ g'' _
        refine Act.follows_bind (Q := Disposed r) ?_ (fun _ _ g' disposed => deleted g' (disposed rfl)) fun _ _ _ _ => trivial
        exact follows_put (fun _ => BrokerOp.noConfusion) rfl rfl ((rereads.identity_retried unpacked number).trans given)
    | none =>
        cases dead : (t r.queue).dlq with
        | some dlq =>
            refine Act.follows_bind (Q := Disposed r) ?_ (fun _ _ g' disposed => deleted g' (disposed rfl)) fun _ _ _ _ => trivial
            exact follows_put (fun _ => BrokerOp.noConfusion) rfl rfl ((rereads.identity_pack unpacked).trans given)
        | none => exact trivial

end SQSBroker

/-! ## RabbitMQ -/

namespace RabbitMQBroker

/-- A rejected message goes to the dead-letter queue, if its queue declares one. -/
def reject (t : String → Topology) (m : Mailbox Stored) (r : Place Stored) : Mailbox Stored :=
  if Mailbox.holds Stored.identity m r then
    match (t r.queue).dlq with
    | some dlq => Mailbox.put (m.set r.index none) dlq r.content
    | none => m.set r.index none
  else m

/-- The lifetime of a message in a retry queue is over, and it goes back to the queue it came from. -/
def expire (t : String → Topology) (m : Mailbox Stored) (index : Nat) (queue : String) : Mailbox Stored :=
  match m[index]? with
  | some (some (name, x)) => if name ∈ (t queue).retryQueues then Mailbox.put (m.set index none) queue x else m
  | _ => m

/-- A delivery that is not acknowledged is made again. -/
def backend (c : Codec) (t : String → Topology) : Backend where
  State := Mailbox Stored
  Content := Stored
  Receipt := Place Stored
  Move := Nat × String
  init := []
  contents := Mailbox.contents
  identity := Stored.identity
  content := Place.content
  pack m := m
  put := Mailbox.put
  receive m queue picks := (m, (picks.take 1).filterMap fun pick => Mailbox.offer m queue pick)
  apply
    | m, _, .publish routingKey x => m.put routingKey x
    | m, r, .ack => remove Stored.identity m r
    | m, r, .reject => reject t m r
    | m, _, _ => m
  move m e := expire t m e.1 e.2
  deliver r := handleDelivery c (t r.queue) r.queue r.content r.redelivered
  exhausted msg := match (t msg.queue).delay msg.attempt, (t msg.queue).retryQueues[(msg.attempt - 1).toNat]? with
    | some _, some _ => false
    | _, _ => (t msg.queue).dlq.isNone

section reject

variable {k : Identity} {m : Mailbox Stored} {r r' : Place Stored}

theorem copies_bury {queue : String} (good : Mailbox.holds Stored.identity m r = true) :
    Mailbox.copies Stored.identity k (Mailbox.put (m.set r.index none) queue r.content) = Mailbox.copies Stored.identity k m := by
  rw [Mailbox.copies_put, Mailbox.copies_set_of_holds good]

theorem credit_reject : Mailbox.credit (reject t m r) r' ≤ Mailbox.credit m r' := by
  unfold reject
  split
  · split
    · exact (Mailbox.credit_put _ _ r').trans (Mailbox.credit_set r.index r')
    · exact Mailbox.credit_set r.index r'
  · exact le_refl _

/-- A rejected message is a dead letter where there are any. -/
theorem copies_reject {dlq : String} (dead : (t r.queue).dlq = some dlq) :
    Mailbox.copies Stored.identity k (reject t m r) = Mailbox.copies Stored.identity k m := by
  unfold reject
  split
  · next good =>
      rw [dead]
      exact copies_bury good
  · rfl

/-- Where there are no dead letters, a rejected message is removed. -/
theorem reject_undead (undead : (t r.queue).dlq = none) : reject t m r = remove Stored.identity m r := by
  unfold reject remove
  rw [undead]

theorem copies_expire (index : Nat) (queue : String) :
    Mailbox.copies Stored.identity k (expire t m index queue) = Mailbox.copies Stored.identity k m := by
  unfold expire
  split
  · next name x there =>
      split
      · rw [Mailbox.copies_put, Mailbox.copies_set there]
      · rfl
  · rfl

theorem credit_expire (index : Nat) (queue : String) : Mailbox.credit (expire t m index queue) r ≤ Mailbox.credit m r := by
  unfold expire
  split
  · split
    · exact (Mailbox.credit_put _ _ r).trans (Mailbox.credit_set index r)
    · exact le_refl _
  · exact le_refl _

end reject

def accounts (c : Codec) (t : String → Topology) : Accounts (backend c t) where
  puts
    | .publish routingKey x => some (routingKey, x)
    | _ => none
  settles
    | _, .ack => true
    | r, .reject => (t r.queue).dlq.isNone
    | _, _ => false
  credit := Mailbox.credit
  left := some
  credit_le _ := Mailbox.credit_le
  left_cases _ := .inr rfl
  copies_put _ _ := Mailbox.copies_put
  credit_put _ := Mailbox.credit_put
  copies_receive _ _ _ _ := rfl
  credit_receive _ _ _ _ := le_refl _
  copies_move _ _ e := copies_expire e.1 e.2
  credit_move _ e _ := credit_expire e.1 e.2
  credit_apply m r op r' := by
    cases op with
    | publish routingKey x => exact Mailbox.credit_put routingKey x r'
    | ack => exact Mailbox.credit_remove r r'
    | reject => exact credit_reject
    | _ => exact le_refl _
  copies_puts k m r op queue x puts := by
    cases op with
    | publish routingKey x =>
        cases puts
        exact (Mailbox.copies_put _ _).ge
    | _ => cases puts
  copies_keeps k m r op keeps := by
    cases op with
    | publish routingKey x => exact (Nat.le_add_right _ _).trans (Mailbox.copies_put routingKey x).ge
    | ack => cases keeps
    | reject =>
        cases dead : (t r.queue).dlq with
        | some dlq => exact (copies_reject dead).ge
        | none =>
            simp only [dead, Option.isNone_none] at keeps
            cases keeps
    | _ => exact le_refl _
  copies_settles m r op settles := by
    cases op with
    | ack => exact Mailbox.copies_remove r
    | reject =>
        have undead : (t r.queue).dlq = none := Option.isNone_iff_eq_none.mp settles
        have removed := reject_undead (m := m) undead
        have taken := @Mailbox.copies_remove _ Stored.identity m r
        rw [← removed] at taken
        exact taken
    | _ => cases settles

/-- A message may be published once more after it was handled, where its acknowledgement raised; it
is rejected without dead letters only if its handler returned or no retry is left. -/
theorem careful : (accounts c t).Careful := by
  intro r g
  change (handleDelivery c (t r.queue) r.queue r.content r.redelivered).Follows ((accounts c t).onOne r) _ () g
  unfold handleDelivery
  refine Act.follows_bind (Q := fun _ _ _ => True) (Act.follows_ofExcept trivial) ?_ fun _ _ _ _ => trivial
  intro attempt _ _ _
  have acked : (brokerCall .ack).Follows ((accounts c t).onOne r)
      (fun out _ g' => out ≠ .ok () → g' = some r) () (some r) := by
    refine Act.follows_await ⟨nofun, fun _ => rfl⟩ fun reply _ => ?_
    cases reply with
    | ok u => exact fun raised => absurd rfl raised
    | error e => exact fun _ => rfl
  refine Act.follows_tryCatch (Q := fun out _ g' => out ≠ .ok () →
    (match (t r.queue).delay attempt, (t r.queue).retryQueues[(attempt - 1).toNat]? with
      | some _, some _ => false
      | _, _ => (t r.queue).dlq.isNone) = true → g' = some r) ?_ (fun _ _ _ _ => trivial) ?_
  · refine Act.follows_bind (Q := fun out _ g' => (out = .ok () → g' = some r) ∧ (out ≠ .ok () →
      (match (t r.queue).delay attempt, (t r.queue).retryQueues[(attempt - 1).toNat]? with
        | some _, some _ => false
        | _, _ => (t r.queue).dlq.isNone) = true → g' = some r)) ?_ ?_ ?_
    · refine follows_handle rfl ⟨fun _ => rfl, fun raised => absurd rfl raised⟩ fun e => ⟨nofun, fun _ last => ?_⟩
      exact if_pos last
    · intro u _ g' disposed
      rw [disposed.1 rfl]
      exact acked.weaken fun out _ g' failed raised _ => failed raised
    · intro e _ g' disposed
      exact disposed.2
  · intro e _ g' disposed
    have last := disposed nofun
    split
    · next delay retryQueue retry named =>
        have same : (r.content.retried attempt).identity = r.content.identity := rfl
        refine Act.follows_bind (Q := Disposed r) (follows_put (fun _ => BrokerOp.noConfusion) rfl rfl same) ?_
          fun _ _ _ _ => trivial
        intro u _ g'' disposed
        rw [disposed rfl]
        exact follows_settle (fun _ => BrokerOp.noConfusion) rfl
    · next none =>
        refine Act.follows_await ⟨nofun, fun undead => last ?_⟩ fun _ _ => trivial
        split
        · next retry named => exact (none _ _ retry named).elim
        · exact undead

end RabbitMQBroker

/-! ## Kafka -/

namespace KafkaBroker

/-- The records no offset of the group was committed for, and how often each topic changed its
owner in the group. -/
structure Log where
  records : Mailbox Bytes := []
  owner : String → Nat := fun _ => 0

/-- A consumer that fetches owns the topic, from the first record that was not committed on; the
commits of earlier owners are refused from then on. -/
def fetch (l : Log) (topic : String) : Log × List (Place Bytes × Nat) :=
  ({ l with owner := Function.update l.owner topic (l.owner topic + 1) },
    (((List.range l.records.length).findSome? fun i => Mailbox.offer l.records topic (i, false)).map
      fun r => (r, l.owner topic + 1)).toList)

/-- The offset behind a record is committed by who owns the topic still. -/
def commit (identity : Bytes → Identity) (l : Log) (r : Place Bytes × Nat) : Log :=
  if l.owner r.1.queue = r.2 then { l with records := remove identity l.records r.1 } else l

section commit

variable {identity : Bytes → Identity} {l : Log} {r : Place Bytes × Nat}

theorem commit_cases : (commit identity l r).records = l.records ∨
    (commit identity l r).records = remove identity l.records r.1 := by
  unfold commit
  split
  · exact .inr rfl
  · exact .inl rfl

theorem credit_commit (r' : Place Bytes) :
    Mailbox.credit (commit identity l r).records r' ≤ Mailbox.credit l.records r' := by
  rcases @commit_cases identity l r with refused | removed
  · rw [refused]
  · rw [removed]
    exact Mailbox.credit_remove r.1 r'

theorem copies_commit :
    (∀ k, k ≠ identity r.1.content →
      Mailbox.copies identity k l.records ≤ Mailbox.copies identity k (commit identity l r).records) ∧
    Mailbox.copies identity (identity r.1.content) l.records + Mailbox.credit (commit identity l r).records r.1 ≤
      Mailbox.copies identity (identity r.1.content) (commit identity l r).records + Mailbox.credit l.records r.1 := by
  rcases @commit_cases identity l r with refused | removed
  · rw [refused]
    exact ⟨fun _ _ => le_refl _, le_refl _⟩
  · rw [removed]
    exact Mailbox.copies_remove r.1

end commit

/-- One partition of every topic. -/
def backend (c : Codec) (t : String → Topology) : Backend where
  State := Log
  Content := Bytes
  Receipt := Place Bytes × Nat
  Move := Empty
  init := {}
  contents l := Mailbox.contents l.records
  identity := identityOf c
  content r := r.1.content
  pack := Transport.pack c
  put l topic raw := { l with records := l.records.put topic raw }
  receive l topic _ := fetch l topic
  apply
    | l, _, .sendAndWait topic raw => { l with records := l.records.put topic raw }
    | l, r, .commit => commit (identityOf c) l r
    | l, _, _ => l
  move l _ := l
  deliver r := deliver c (t r.1.queue) r.1.queue r.1.content
  exhausted msg := (t msg.queue).exhausted msg.attempt

def accounts (c : Codec) (t : String → Topology) : Accounts (backend c t) where
  puts
    | .sendAndWait topic raw => some (topic, raw)
    | _ => none
  settles
    | _, .commit => true
    | _, _ => false
  credit l r := Mailbox.credit l.records r.1
  left := some
  credit_le _ r := Mailbox.credit_le r.1
  left_cases _ := .inr rfl
  copies_put _ _ := Mailbox.copies_put
  credit_put _ topic raw r := Mailbox.credit_put topic raw r.1
  copies_receive _ _ _ _ := rfl
  credit_receive _ _ _ _ := le_refl _
  copies_move _ _ _ := rfl
  credit_move _ _ _ := le_refl _
  credit_apply l r op r' := by
    cases op with
    | sendAndWait topic raw => exact Mailbox.credit_put topic raw r'.1
    | commit => exact credit_commit r'.1
    | _ => exact le_refl _
  copies_puts k l r op queue x puts := by
    cases op with
    | sendAndWait topic raw =>
        cases puts
        exact (Mailbox.copies_put _ _).ge
    | _ => cases puts
  copies_keeps k l r op keeps := by
    cases op with
    | sendAndWait topic raw => exact (Nat.le_add_right _ _).trans (Mailbox.copies_put topic raw).ge
    | commit => cases keeps
    | _ => exact le_refl _
  copies_settles l r op settles := by
    cases op with
    | commit => exact copies_commit
    | _ => cases settles

theorem careful (rereads : c.Rereads) : (accounts c t).Careful := by
  intro r g
  unfold backend deliver dispatch
  refine Act.follows_bind (Q := Disposed r) ?_ (fun _ _ g' disposed => ?_) fun _ _ _ _ => trivial
  · refine follows_received (fun _ => nofun) fun m attempt unpacked number => ?_
    have given : m.identity = identityOf c r.1.content := (identityOf_unpack unpacked).symm
    refine Act.follows_tryCatch (Q := fun out _ g' => (∀ u, out = .ok u → g' = some r) ∧
      ((t r.1.queue).exhausted attempt = true → g' = some r)) ?_ ?_ ?_
    · refine follows_handle given ⟨fun _ _ => rfl, fun _ => rfl⟩ fun e => ⟨nofun, fun exhausted => ?_⟩
      exact if_pos exhausted
    · intro u _ g' disposed _
      exact disposed.1 u rfl
    · intro e _ g' disposed
      unfold Topology.exhausted at disposed
      cases retry : (t r.1.queue).delay attempt with
      | some delay =>
          refine Act.follows_await_bind ⟨nofun, nofun⟩ (fun _ _ => ?_) fun _ _ => nofun
          exact follows_put (fun _ => BrokerOp.noConfusion) rfl rfl ((rereads.identity_retried unpacked number).trans given)
      | none =>
          cases dead : (t r.1.queue).dlq with
          | some dlq =>
              exact follows_put (fun _ => BrokerOp.noConfusion) rfl rfl ((rereads.identity_pack unpacked).trans given)
          | none =>
              rw [retry, dead] at disposed
              exact fun _ => disposed.2 rfl
  · rw [disposed rfl]
    exact follows_settle (fun _ => BrokerOp.noConfusion) rfl

end KafkaBroker

/-! ## At least once -/

/-- The brokers whose messages survive their consumers. -/
inductive Durable where
  | redis
  | sqs
  | rabbitmq
  | kafka
deriving DecidableEq, Repr

namespace Durable

def backend (c : Codec) (t : String → Topology) : Durable → Backend
  | .redis => RedisStreamsBroker.backend c t
  | .sqs => SQSBroker.backend c t
  | .rabbitmq => RabbitMQBroker.backend c t
  | .kafka => KafkaBroker.backend c t

def accounts (c : Codec) (t : String → Topology) : (d : Durable) → Accounts (d.backend c t)
  | .redis => RedisStreamsBroker.accounts c t
  | .sqs => SQSBroker.accounts c t
  | .rabbitmq => RabbitMQBroker.accounts c t
  | .kafka => KafkaBroker.accounts c t

theorem careful (rereads : c.Rereads) : (d : Durable) → (d.accounts c t).Careful
  | .redis => RedisStreamsBroker.careful rereads
  | .sqs => SQSBroker.careful rereads
  | .rabbitmq => RabbitMQBroker.careful
  | .kafka => KafkaBroker.careful rereads

/-- SQS leaves a message where it is, and the others bury it where there are dead letters. -/
def Keeps (t : String → Topology) (d : Durable) : Prop := d = .sqs ∨ ∀ queue, (t queue).dlq ≠ none

theorem Keeps.exhausted {d : Durable} (keeps : d.Keeps t) (msg : IncomingMessage) :
    (d.backend c t).exhausted msg = false := by
  rcases keeps with rfl | dead
  · rfl
  · have buried : (t msg.queue).dlq.isNone = false := by
      cases dlq : (t msg.queue).dlq with
      | none => exact absurd dlq (dead msg.queue)
      | some queue => rfl
    cases d with
    | sqs => rfl
    | rabbitmq =>
        simp only [Durable.backend, RabbitMQBroker.backend]
        split
        · rfl
        · exact buried
    | _ => exact (congrArg ((((t msg.queue).delay msg.attempt).isNone) && ·) buried).trans (Bool.and_false _)

end Durable

end Transport

namespace Sample

open Transport

end Sample

end Maof
