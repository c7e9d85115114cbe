import Idiom.Lib.Run

/-!
# Nodes on a wire

Nodes with states of one kind exchange messages over one wire. A message that was sent
stays on the wire: an event may take it off for any node, at any time and any number of
times, so runs cover every order, duplication and loss of messages.
-/

namespace Idiom

/-- The states of the nodes, and every message sent so far. -/
@[ext] structure Net (ι σ μ : Type*) where
  nodes : ι → σ
  wire : List μ

namespace Net

variable {ι σ μ α β : Type*} [DecidableEq ι]

/-- An event, with what it draws from outside. -/
inductive Event (ι α β : Type*) where
  | act (node : ι) (input : α)
  | deliver (node : ι) (index : ℕ) (input : β)

/-- A node goes over to a new state and sends messages. -/
def put (net : Net ι σ μ) (node : ι) (result : σ × List μ) : Net ι σ μ where
  nodes := Function.update net.nodes node result.1
  wire := net.wire ++ result.2

def step (act : σ → α → σ × List μ) (handle : σ → μ → β → σ × List μ) (net : Net ι σ μ) :
    Event ι α β → Option (Net ι σ μ)
  | .act node input => some (net.put node (act (net.nodes node) input))
  | .deliver node index input =>
    (net.wire[index]?).map fun message => net.put node (handle (net.nodes node) message input)

variable {act : σ → α → σ × List μ} {handle : σ → μ → β → σ × List μ} {net net' : Net ι σ μ}

@[simp] theorem nodes_put_self (node : ι) (result : σ × List μ) :
    (net.put node result).nodes node = result.1 := by
  simp [put]

theorem step_deliver {node : ι} {index : ℕ} {input : β} {message : μ}
    (h : net.wire[index]? = some message) :
    net.step act handle (.deliver node index input) =
      some (net.put node (handle (net.nodes node) message input)) := by
  simp [step, h]

/-- The nodes have `P` and the messages have `Q`. -/
structure Everywhere (P : σ → Prop) (Q : μ → Prop) (net : Net ι σ μ) : Prop where
  nodes : ∀ node, P (net.nodes node)
  wire : ∀ message ∈ net.wire, Q message

/-- The condition `H` on the receiver and the message holds if the event is a delivery. -/
def Allowed (H : σ → μ → Prop) (net : Net ι σ μ) : Event ι α β → Prop
  | .act _ _ => True
  | .deliver node index _ => ∀ message, net.wire[index]? = some message → H (net.nodes node) message

variable {P : σ → Prop} {Q : μ → Prop} {H : σ → μ → Prop}

theorem Everywhere.put (h : net.Everywhere P Q) (node : ι) {result : σ × List μ}
    (hnode : P result.1) (hsent : ∀ message ∈ result.2, Q message) :
    (net.put node result).Everywhere P Q := by
  refine ⟨fun other => ?_, fun message hmem => ?_⟩
  · by_cases heq : other = node
    · subst heq
      rw [nodes_put_self]
      exact hnode
    · show P (Function.update net.nodes node result.1 other)
      rw [Function.update_of_ne heq]
      exact h.nodes other
  · rcases List.mem_append.1 hmem with hold | hnew
    · exact h.wire message hold
    · exact hsent message hnew

/-- **The invariant rule.**  What the node functions keep, under a condition on the
deliveries, every event that meets the condition keeps. -/
theorem everywhere_step
    (hact : ∀ s input, P s → P (act s input).1 ∧ ∀ message ∈ (act s input).2, Q message)
    (hhandle : ∀ s message input, P s → Q message → H s message →
      P (handle s message input).1 ∧ ∀ reply ∈ (handle s message input).2, Q reply)
    {event : Event ι α β} (h : net.Everywhere P Q) (hH : net.Allowed H event)
    (hstep : net.step act handle event = some net') : net'.Everywhere P Q := by
  cases event with
  | act node input =>
    cases hstep
    obtain ⟨hnode, hsent⟩ := hact (net.nodes node) input (h.nodes node)
    exact h.put node hnode hsent
  | deliver node index input =>
    obtain ⟨message, hmessage, rfl⟩ := Option.map_eq_some_iff.1 hstep
    obtain ⟨hnode, hsent⟩ := hhandle (net.nodes node) message input (h.nodes node)
      (h.wire message (List.mem_of_getElem? hmessage)) (hH message hmessage)
    exact h.put node hnode hsent

end Net
end Idiom
