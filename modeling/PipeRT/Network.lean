import Mathlib

structure Datagram (ι μ : Type) where
  source      : ι
  destination : ι
  payload     : μ
  deriving DecidableEq, Repr

-- An unreliable network. Whatever has been sent reaches its destination after any delay, in any
-- order, once, more than once or never.
structure Network (ι μ : Type) where
  -- Every datagram that anyone has sent.
  sent  : List (Datagram ι μ)
  -- The datagrams that have reached an endpoint and wait to be received there.
  inbox : ι → List (Datagram ι μ)

namespace Network

variable {ι μ : Type} {net net' : Network ι μ} {d d' : Datagram ι μ} {i j : ι}

def silent : Network ι μ where
  sent    := []
  inbox _ := []

def send (net : Network ι μ) (d : Datagram ι μ) : Network ι μ :=
  { net with sent := d :: net.sent }

@[simp]
theorem silent_inbox : (silent : Network ι μ).inbox i = [] :=
  rfl

@[simp]
theorem silent_sent : (silent : Network ι μ).sent = [] :=
  rfl

@[simp]
theorem send_inbox : (net.send d).inbox = net.inbox :=
  rfl

@[simp]
theorem send_sent : (net.send d).sent = d :: net.sent :=
  rfl

-- The network makes nothing up, and brings nothing to the wrong place.
structure Genuine (net : Network ι μ) : Prop where
  sent        : ∀ i, ∀ d ∈ net.inbox i, d ∈ net.sent
  destination : ∀ i, ∀ d ∈ net.inbox i, d.destination = i

theorem Genuine.silent : (silent : Network ι μ).Genuine where
  sent        := by simp
  destination := by simp

theorem Genuine.send (h : net.Genuine) : (net.send d).Genuine where
  sent i d' hd := List.mem_cons_of_mem _ (h.sent i d' hd)
  destination  := h.destination

variable [DecidableEq ι]

def deliver (net : Network ι μ) (d : Datagram ι μ) : Network ι μ :=
  { net with inbox := Function.update net.inbox d.destination (net.inbox d.destination ++ [d]) }

def receive (net : Network ι μ) (i : ι) : Option (Datagram ι μ × Network ι μ) :=
  match net.inbox i with
  | []        => none
  | d :: rest => some (d, { net with inbox := Function.update net.inbox i rest })

@[simp]
theorem deliver_sent : (net.deliver d).sent = net.sent :=
  rfl

theorem mem_deliver (hd : d' ∈ (net.deliver d).inbox i) :
    d' ∈ net.inbox i ∨ d' = d ∧ d.destination = i := by
  by_cases hi : i = d.destination
  case pos =>
    subst hi
    simpa [deliver] using hd
  case neg => exact .inl <| by simpa [deliver, hi] using hd

theorem receive_eq_some :
    net.receive i = some (d, net') ↔
    ∃ rest, net.inbox i = d :: rest ∧
      net' = { net with inbox := Function.update net.inbox i rest } := by
  rw [receive]
  split
  case h_1 h => simp [h]
  case h_2 h => simp [h, eq_comm, and_assoc]

theorem receive_eq_none : net.receive i = none ↔ net.inbox i = [] := by
  rw [receive]
  split <;> simp_all

theorem receive_sent (h : net.receive i = some (d, net')) : net'.sent = net.sent := by
  obtain ⟨_, _, rfl⟩ := receive_eq_some.mp h
  rfl

theorem mem_of_mem_receive (h : net.receive i = some (d, net')) (hd : d' ∈ net'.inbox j) :
    d' ∈ net.inbox j := by
  obtain ⟨rest, hi, rfl⟩ := receive_eq_some.mp h
  by_cases hj : j = i
  case pos =>
    subst hj
    exact hi ▸ List.mem_cons_of_mem _ (by simpa using hd)
  case neg => simpa [hj] using hd

namespace Genuine

theorem deliver (h : net.Genuine) (hd : d ∈ net.sent) : (net.deliver d).Genuine where
  sent i d' hd' := by
    cases mem_deliver hd'
    case inl hd' => exact h.sent i d' hd'
    case inr hd' => exact hd'.1 ▸ hd
  destination i d' hd' := by
    cases mem_deliver hd'
    case inl hd' => exact h.destination i d' hd'
    case inr hd' => exact hd'.1 ▸ hd'.2

theorem receive (h : net.Genuine) (hr : net.receive i = some (d, net')) : net'.Genuine where
  sent j d' hd'        := receive_sent hr ▸ h.sent j d' (mem_of_mem_receive hr hd')
  destination j d' hd' := h.destination j d' (mem_of_mem_receive hr hd')

-- What is received has been sent to the one who receives it.
theorem of_receive (h : net.Genuine) (hr : net.receive i = some (d, net')) :
    d ∈ net.sent ∧ d.destination = i := by
  have ⟨rest, hi, _⟩ := receive_eq_some.mp hr
  have hd : d ∈ net.inbox i := hi ▸ List.mem_cons_self
  exact ⟨h.sent i d hd, h.destination i d hd⟩

end Genuine
end Network
