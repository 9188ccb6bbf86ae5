import Mathlib.Data.List.Basic

/-!
# Histories of a queue

Items enter a queue at its back and leave it at its front, because a consumer takes them or because
they are lost. `History before accepted exits after` relates the contents of the queue at two
moments to what entered and what left in between. It is one equation between lists, so histories of
consecutive stretches compose (`History.trans`), and both readings of it are immediate: what is
taken comes out in the order in which it was accepted (`History.sublist`), and every item is
accounted for once (`History.length`).
-/

namespace QueueHistory

variable {α : Type}

/-- How an item leaves a queue. -/
inductive Exit (α : Type) where
  | taken (item : α)
  | lost (item : α)
  deriving DecidableEq

/-- The item that leaves. -/
def Exit.item : Exit α → α
  | .taken item => item
  | .lost item => item

/-- The items that a consumer has taken. -/
def taken (exits : List (Exit α)) : List α :=
  exits.filterMap fun
    | .taken item => some item
    | .lost _ => none

/-- The items that no consumer has seen. -/
def lost (exits : List (Exit α)) : List α :=
  exits.filterMap fun
    | .taken _ => none
    | .lost item => some item

@[simp] theorem taken_append (exits exits' : List (Exit α)) :
    taken (exits ++ exits') = taken exits ++ taken exits' := List.filterMap_append

@[simp] theorem lost_append (exits exits' : List (Exit α)) :
    lost (exits ++ exits') = lost exits ++ lost exits' := List.filterMap_append

@[simp] theorem taken_singleton_taken (item : α) : taken [.taken item] = [item] := rfl

/-- What a consumer takes is part of what leaves, in the same order. -/
theorem taken_sublist (exits : List (Exit α)) : (taken exits).Sublist (exits.map Exit.item) := by
  induction exits with
  | nil => exact List.Sublist.refl []
  | cons exit exits ih =>
      cases exit with
      | taken item => exact ih.cons_cons item
      | lost item => exact ih.cons item

/-- What leaves is either taken or lost. -/
theorem length_taken_add_lost (exits : List (Exit α)) :
    (taken exits).length + (lost exits).length = exits.length := by
  induction exits with
  | nil => rfl
  | cons exit exits ih =>
      cases exit with
      | taken item =>
          show (taken exits).length + 1 + (lost exits).length = exits.length + 1
          omega
      | lost item =>
          show (taken exits).length + ((lost exits).length + 1) = exits.length + 1
          omega

/-- The queue held `before`, accepted some items at its back, lost others from its front, and now
holds `after`. -/
structure History (before accepted : List α) (exits : List (Exit α)) (after : List α) : Prop where
  fifo : before ++ accepted = exits.map Exit.item ++ after

namespace History

variable {before accepted accepted' queue after : List α} {exits exits' : List (Exit α)}

/-- Nothing happens. -/
theorem refl (queue : List α) : History queue [] [] queue := ⟨List.append_nil queue⟩

/-- An item enters at the back. -/
theorem enter (queue : List α) (item : α) : History queue [item] [] (queue ++ [item]) := ⟨rfl⟩

/-- The oldest item leaves. -/
theorem leave (exit : Exit α) (queue : List α) : History (exit.item :: queue) [] [exit] queue :=
  ⟨List.append_nil _⟩

/-- What happens in two consecutive stretches. -/
theorem trans (h : History before accepted exits queue)
    (h' : History queue accepted' exits' after) :
    History before (accepted ++ accepted') (exits ++ exits') after := by
  refine ⟨?_⟩
  calc before ++ (accepted ++ accepted')
      = exits.map Exit.item ++ queue ++ accepted' := by rw [← List.append_assoc, h.fifo]
    _ = exits.map Exit.item ++ (exits'.map Exit.item ++ after) := by rw [List.append_assoc, h'.fifo]
    _ = (exits ++ exits').map Exit.item ++ after := by rw [List.map_append, List.append_assoc]

/-- What was taken, followed by what is still queued, is in the order of acceptance. -/
theorem sublist (h : History before accepted exits after) :
    (taken exits ++ after).Sublist (before ++ accepted) := by
  rw [h.fifo]
  exact (taken_sublist exits).append (List.Sublist.refl after)

/-- Every item that was queued or accepted has been taken or lost, or is still queued. -/
theorem length (h : History before accepted exits after) :
    before.length + accepted.length =
      (taken exits).length + (lost exits).length + after.length := by
  have hlen := congrArg List.length h.fifo
  rw [List.length_append, List.length_append, List.length_map] at hlen
  rw [hlen, length_taken_add_lost]

end History

end QueueHistory
