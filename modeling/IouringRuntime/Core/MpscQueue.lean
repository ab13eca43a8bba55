import Mathlib.Logic.Function.Basic
import IouringRuntime.Concurrent.LateLinks
import IouringRuntime.Concurrent.Threads
import IouringRuntime.Reentrant.Trace

/-!
# The multi-producer single-consumer queue

`Push` is two atomic steps, the exchange of `produce_end_` and the store of the
predecessor's link, and a thread may be stopped between them. `TryPop` is the
sequence of the consumer's loads and stores; the value of a program point are
the consumer's local variables there. All steps are sequentially consistent.

A node is named by its address. `new` picks any address that is not in use, so
an address may come back after its node was deleted.
-/

namespace IouringRuntime

inductive MpscNode where
  | stub
  | heap (addr : Nat)
  deriving DecidableEq, Repr

/-- Where the consumer is in `TryPop`. -/
inductive TryPopPc (V : Type) where
  | idle
  | loadNext (node : MpscNode)
  | skipStub (next : MpscNode)
  | loadNextAgain (node : MpscNode)
  | advance (node next : MpscNode)
  | moveValue (node : MpscNode)
  | deleteNode (node : MpscNode) (out : V)
  | loadProduceEnd (node : MpscNode)
  | clearStub (node : MpscNode)
  | exchangeStub (node : MpscNode)
  | linkStub (node prev : MpscNode)
  | reloadNext (node : MpscNode)

structure MpscQueue (V : Type) where
  next : MpscNode → Option MpscNode := fun _ => none
  value : MpscNode → V
  /-- The addresses of the nodes that have been allocated and not deleted. -/
  live : Nat → Bool := fun _ => false
  consumeEnd : MpscNode := .stub
  produceEnd : MpscNode := .stub
  /-- The producers between their two steps: `prev` and `node` of `PushNode`. -/
  producers : List (MpscNode × MpscNode) := []
  pc : TryPopPc V := .idle
  /-- What was pushed, in the order of the exchanges. -/
  exchanged : List (MpscNode × V) := []
  /-- What successful `TryPop` calls returned. -/
  popped : List (MpscNode × V) := []

/-- The next atomic step of a thread. `addr` is where `new` puts the node. -/
inductive MpscInput (V : Type) where
  | exchange (addr : Nat) (item : V)
  | link (i : Nat)
  | consume

namespace MpscQueue

variable {V : Type}

/-- `prev->next.store(node)`. -/
def storeNext (s : MpscQueue V) (prev : MpscNode) (node : Option MpscNode) : MpscQueue V :=
  { s with next := Function.update s.next prev node }

def goto (s : MpscQueue V) (pc : TryPopPc V) : MpscQueue V := { s with pc }

/-- `Push` up to its exchange. -/
def push (s : MpscQueue V) (addr : Nat) (item : V) : MpscQueue V :=
  { s.storeNext (.heap addr) none with
    value := Function.update s.value (.heap addr) item
    live := Function.update s.live addr true
    produceEnd := .heap addr
    producers := s.producers ++ [(s.produceEnd, .heap addr)]
    exchanged := s.exchanged ++ [(.heap addr, item)] }

/-- The second step of `PushNode`. -/
def link (s : MpscQueue V) (i : Nat) (p : MpscNode × MpscNode) : MpscQueue V :=
  { s.storeNext p.1 (some p.2) with producers := Threads.put s.producers i [] }

def delete (s : MpscQueue V) (node : MpscNode) : MpscQueue V :=
  { s with live := match node with
      | .stub => s.live
      | .heap addr => Function.update s.live addr false }

/-- One step of `TryPop`, and what it returns if it does. -/
def tryPop (s : MpscQueue V) : MpscQueue V × Option Bool :=
  match s.pc with
  | .idle => (s.goto (.loadNext s.consumeEnd), none)
  | .loadNext node =>
    match s.next node with
    | none =>
      if node = .stub then (s.goto .idle, some false) else (s.goto (.loadProduceEnd node), none)
    | some next =>
      if node = .stub then (s.goto (.skipStub next), none)
      else (s.goto (.advance node next), none)
  | .skipStub next => ({ s with consumeEnd := next, pc := .loadNextAgain next }, none)
  | .loadNextAgain node =>
    match s.next node with
    | none => (s.goto (.loadProduceEnd node), none)
    | some next => (s.goto (.advance node next), none)
  | .advance node next => ({ s with consumeEnd := next, pc := .moveValue node }, none)
  | .moveValue node => (s.goto (.deleteNode node (s.value node)), none)
  | .deleteNode node out =>
    ({ s.delete node with popped := s.popped ++ [(node, out)], pc := .idle }, some true)
  | .loadProduceEnd node =>
    if node ≠ s.produceEnd then (s.goto .idle, some false) else (s.goto (.clearStub node), none)
  | .clearStub node => ((s.storeNext .stub none).goto (.exchangeStub node), none)
  | .exchangeStub node =>
    ({ s with produceEnd := .stub, pc := .linkStub node s.produceEnd }, none)
  | .linkStub node prev => ((s.storeNext prev (some .stub)).goto (.reloadNext node), none)
  | .reloadNext node =>
    match s.next node with
    | none => (s.goto .idle, some false)
    | some next => (s.goto (.advance node next), none)

def step (s : MpscQueue V) : MpscInput V → Option (MpscQueue V)
  | .exchange addr item => if s.live addr then none else some (s.push addr item)
  | .link i => s.producers[i]?.map (s.link i)
  | .consume => some s.tryPop.1

/-- A queue constructed with `stub_` holding `item`. -/
def init (item : V) : MpscQueue V := { value := fun _ => item }

/-- The step in which `TryPop` returns false. -/
def Fails (s : MpscQueue V) : MpscInput V → Prop
  | .consume => s.tryPop.2 = some false
  | _ => False

/-- The step loads a `next`. -/
def loads (s : MpscQueue V) : MpscInput V → Bool
  | .consume =>
    match s.pc with
    | .loadNext _ | .loadNextAgain _ | .reloadNext _ => true
    | _ => false
  | _ => false

/-- A step of the queue, together with whether a producer has been between its
two steps since the consumer last loaded a `next`. -/
def watch (x : MpscQueue V × Bool) (i : MpscInput V) : Option (MpscQueue V × Bool) :=
  (x.1.step i).map fun s => (s, !s.producers.isEmpty || (x.2 && !x.1.loads i))

/-- The links of the list that are still to be written, the consumer's own included. -/
def pending (s : MpscQueue V) : List (MpscNode × MpscNode) :=
  s.producers ++
    match s.pc with
    | .linkStub _ prev => [(prev, .stub)]
    | _ => []

/-- Nodes of the list: from `consume_end_` along written and pending links. -/
def Path (s : MpscQueue V) (nodes : List MpscNode) : Prop :=
  nodes.head? = some s.consumeEnd ∧
    nodes.IsChain fun a b => s.next a = some b ∨ (a, b) ∈ s.pending

end MpscQueue

end IouringRuntime
