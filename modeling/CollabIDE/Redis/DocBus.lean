import Mathlib.Logic.Function.Basic
/-!
# The document bus

One Redis channel per open document.  The module knows ids, channels and
callbacks, so the handlers are of any type here.  The subscriber connection is
lazy: leaving a channel that was never joined opens nothing.
-/

namespace CollabIDE.Redis.DocBus

variable {η : Type}

/-- What the subscriber connection is told, in order. -/
inductive Command
  | subscribe (channel : String)
  | unsubscribe (channel : String)
  deriving DecidableEq

structure Bus (η : Type) where
  /-- Channel to the room handler waiting on it. -/
  handlers : String → Option η
  subscriber : Bool
  commands : List Command

def Bus.closed : Bus η := ⟨fun _ => none, false, []⟩

def docChannel (docId : String) : String := "doc:" ++ docId

/-- Idempotent: subscribing twice replaces the handler. -/
def subscribeDoc (bus : Bus η) (docId : String) (onFrame : η) : Bus η :=
  let channel := docChannel docId
  let known := (bus.handlers channel).isSome
  let bus := { bus with handlers := Function.update bus.handlers channel (some onFrame) }
  if known then bus
  else { bus with subscriber := true, commands := bus.commands ++ [.subscribe channel] }

/-- Returns before touching a connection if none exists. -/
def unsubscribeDoc (bus : Bus η) (docId : String) : Bus η :=
  if bus.subscriber = false then bus
  else
    let channel := docChannel docId
    if (bus.handlers channel).isNone then bus
    else
      { bus with
        handlers := Function.update bus.handlers channel none
        commands := bus.commands ++ [.unsubscribe channel] }

/-- Every handler came with a connection. -/
def Connected (bus : Bus η) : Prop :=
  ∀ channel, (bus.handlers channel).isSome → bus.subscriber = true

theorem docChannel_injective : Function.Injective docChannel := by
  intro a b h
  have hlist := congrArg String.toList h
  simp only [docChannel, String.toList_append, List.append_cancel_left_eq] at hlist
  exact String.toList_inj.mp hlist

theorem connected_closed : Connected (Bus.closed : Bus η) := by
  simp [Connected, Bus.closed]

theorem connected_subscribeDoc {bus : Bus η} (hbus : Connected bus) (docId : String)
    (onFrame : η) : Connected (subscribeDoc bus docId onFrame) := by
  unfold subscribeDoc
  by_cases hknown : (bus.handlers (docChannel docId)).isSome
  · simp only [hknown, if_true]
    exact fun _ _ => hbus _ hknown
  · simp only [hknown, Bool.false_eq_true, if_false]
    exact fun _ _ => rfl

theorem connected_unsubscribeDoc {bus : Bus η} (hbus : Connected bus) (docId : String) :
    Connected (unsubscribeDoc bus docId) := by
  unfold unsubscribeDoc
  by_cases hclosed : bus.subscriber = false
  · rw [if_pos hclosed]
    exact hbus
  · rw [if_neg hclosed]
    by_cases hnone : (bus.handlers (docChannel docId)).isNone
    · simp only [if_pos hnone]
      exact hbus
    · simp only [if_neg hnone]
      exact fun _ _ => by simpa using hclosed

theorem subscribeDoc_handlers (bus : Bus η) (docId : String) (onFrame : η) :
    (subscribeDoc bus docId onFrame).handlers =
      Function.update bus.handlers (docChannel docId) (some onFrame) := by
  unfold subscribeDoc
  by_cases hknown : (bus.handlers (docChannel docId)).isSome
  · simp only [if_pos hknown]
  · simp only [if_neg hknown]

theorem unsubscribeDoc_handlers {bus : Bus η} (hbus : Connected bus) (docId : String) :
    (unsubscribeDoc bus docId).handlers =
      Function.update bus.handlers (docChannel docId) none := by
  have hkeep : bus.handlers (docChannel docId) = none →
      bus.handlers = Function.update bus.handlers (docChannel docId) none := fun h => by
    rw [← h, Function.update_eq_self]
  unfold unsubscribeDoc
  by_cases hclosed : bus.subscriber = false
  · rw [if_pos hclosed]
    refine hkeep (Option.not_isSome_iff_eq_none.mp fun hsome => ?_)
    simp [hbus _ hsome] at hclosed
  · rw [if_neg hclosed]
    by_cases hnone : (bus.handlers (docChannel docId)).isNone
    · simp only [if_pos hnone]
      exact hkeep (Option.isNone_iff_eq_none.mp hnone)
    · simp only [if_neg hnone]

end CollabIDE.Redis.DocBus
