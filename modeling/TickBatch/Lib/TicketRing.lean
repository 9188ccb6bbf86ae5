import Mathlib.Logic.Function.Basic
import Mathlib.Data.List.Nodup
import Mathlib.Data.List.Range

/-!
# The ticket ring: a sequence-numbered queue over unbounded positions

A ring of `cap` slots hands out positions `0, 1, 2, …`; position `p` lives in slot `p % cap`. Two
cursors count the positions claimed by producers (`tail`) and by removers (`head`), and each slot
carries a sequence number that says whose turn it is: `p` while position `p` is free or being
written, `p + 1` once it is published, `p + cap` once it has been recycled for the next lap.

`Step` lists everything a thread may do in one atomic step, with what it knows (`View`) about the
positions it has read, claimed or removed. Removal does not distinguish consumers from evictors
beyond a label. `Inv` is the inductive invariant: it ties each slot's sequence number to the
threads in flight, and `Inv.step` preserves it. Everything here is over `Nat`, so nothing wraps.
-/

namespace TicketRing

/-- What a thread knows about the ring: a cursor it has loaded and whether it has since seen the
slot ready, or a position it owns as a producer or as a remover. -/
inductive View (T : Type) where
  | nothing
  | atTail (pos : Nat) (ready : Bool)
  | producing (pos : Nat) (item : T) (written : Bool)
  | atHead (pos : Nat) (ready : Bool)
  | removing (pos : Nat) (read : Option T)

/-- The position a thread owns as a producer, from its claim until it publishes. -/
def View.producingPos {T : Type} : View T → Option Nat
  | .producing pos _ _ => some pos
  | _ => none

/-- The position a thread owns as a remover, from its removal until it recycles the slot. -/
def View.removingPos {T : Type} : View T → Option Nat
  | .removing pos _ => some pos
  | _ => none

/-- The position a thread owns, in either role. -/
def View.ownedPos {T : Type} (v : View T) : Option Nat := v.producingPos <|> v.removingPos

/-- The observable steps. `recycle` carries the item the remover hands back, if it read one. -/
inductive Event (Tid T : Type) where
  | claim (t : Tid) (pos : Nat) (item : T)
  | publish (t : Tid) (pos : Nat) (item : T)
  | remove (t : Tid) (pos : Nat) (evicting : Bool)
  | use (t : Tid) (pos : Nat) (item : T)
  | recycle (t : Tid) (pos : Nat) (taken : Option T)

variable {Tid T : Type}

/-- The claimed positions with their items, in order. -/
def claims (log : List (Event Tid T)) : List (Nat × T) :=
  log.filterMap fun
    | .claim _ pos item => some (pos, item)
    | _ => none

/-- The removed positions, in order. -/
def removals (log : List (Event Tid T)) : List Nat :=
  log.filterMap fun
    | .remove _ pos _ => some pos
    | _ => none

/-- The positions whose remover has finished and handed its item back. -/
def returned (log : List (Event Tid T)) : List (Nat × T) :=
  log.filterMap fun
    | .recycle _ pos (some item) => some (pos, item)
    | _ => none

/-- Every item a thread has attached to a position after claiming it. -/
def observed (log : List (Event Tid T)) : List (Nat × T) :=
  log.filterMap fun
    | .publish _ pos item | .use _ pos item | .recycle _ pos (some item) => some (pos, item)
    | _ => none

@[simp] theorem claims_append (l l' : List (Event Tid T)) :
    claims (l ++ l') = claims l ++ claims l' := List.filterMap_append

@[simp] theorem removals_append (l l' : List (Event Tid T)) :
    removals (l ++ l') = removals l ++ removals l' := List.filterMap_append

@[simp] theorem returned_append (l l' : List (Event Tid T)) :
    returned (l ++ l') = returned l ++ returned l' := List.filterMap_append

@[simp] theorem observed_append (l l' : List (Event Tid T)) :
    observed (l ++ l') = observed l ++ observed l' := List.filterMap_append

/-- The shared cursors and slots, and every thread's view. -/
structure State (Tid T : Type) where
  head : Nat
  tail : Nat
  seq : Nat → Nat
  data : Nat → T
  view : Tid → View T

variable [DecidableEq Tid]

/-- Replace one thread's view. -/
def State.setView (s : State Tid T) (t : Tid) (v : View T) : State Tid T :=
  { s with view := Function.update s.view t v }

@[simp] theorem State.setView_head (s : State Tid T) (t : Tid) (v : View T) :
    (s.setView t v).head = s.head := rfl

@[simp] theorem State.setView_tail (s : State Tid T) (t : Tid) (v : View T) :
    (s.setView t v).tail = s.tail := rfl

@[simp] theorem State.setView_seq (s : State Tid T) (t : Tid) (v : View T) :
    (s.setView t v).seq = s.seq := rfl

@[simp] theorem State.setView_data (s : State Tid T) (t : Tid) (v : View T) :
    (s.setView t v).data = s.data := rfl

@[simp] theorem State.setView_view_self (s : State Tid T) (t : Tid) (v : View T) :
    (s.setView t v).view t = v := by
  simp [State.setView]

theorem State.setView_view_other (s : State Tid T) {t u : Tid} (v : View T) (h : u ≠ t) :
    (s.setView t v).view u = s.view u := by
  simp [State.setView, h]

/-- One atomic step of one thread. A thread that owns a position keeps it until it publishes or
recycles; the other steps only change what it has seen. -/
inductive Step (cap : Nat) : State Tid T → List (Event Tid T) → State Tid T → Prop where
  | stutter (s) : Step cap s [] s
  | reset (s t) :
      (s.view t).producingPos = none → (s.view t).removingPos = none →
      Step cap s [] (s.setView t .nothing)
  | loadTail (s t) :
      (s.view t).producingPos = none → (s.view t).removingPos = none →
      Step cap s [] (s.setView t (.atTail s.tail false))
  | checkTail (s t pos ready) :
      s.view t = .atTail pos ready → s.seq (pos % cap) = pos →
      Step cap s [] (s.setView t (.atTail pos true))
  | claim (s t pos item) :
      s.view t = .atTail pos true → s.tail = pos →
      Step cap s [.claim t pos item]
        { s.setView t (.producing pos item false) with tail := pos + 1 }
  | write (s t pos item) :
      s.view t = .producing pos item false →
      Step cap s [] { s.setView t (.producing pos item true) with
        data := Function.update s.data (pos % cap) item }
  | publish (s t pos item) :
      s.view t = .producing pos item true →
      Step cap s [.publish t pos item] { s.setView t .nothing with
        seq := Function.update s.seq (pos % cap) (pos + 1) }
  | loadHead (s t) :
      (s.view t).producingPos = none → (s.view t).removingPos = none →
      Step cap s [] (s.setView t (.atHead s.head false))
  | checkHead (s t pos ready) :
      s.view t = .atHead pos ready → s.seq (pos % cap) = pos + 1 →
      Step cap s [] (s.setView t (.atHead pos true))
  | remove (s t pos evicting) :
      s.view t = .atHead pos true → s.head = pos →
      Step cap s [.remove t pos evicting]
        { s.setView t (.removing pos none) with head := pos + 1 }
  | read (s t pos) :
      s.view t = .removing pos none →
      Step cap s [] (s.setView t (.removing pos (some (s.data (pos % cap)))))
  | use (s t pos item) :
      s.view t = .removing pos (some item) → Step cap s [.use t pos item] s
  | recycle (s t pos taken) :
      s.view t = .removing pos taken →
      Step cap s [.recycle t pos taken] { s.setView t .nothing with
        seq := Function.update s.seq (pos % cap) (pos + cap) }

/-- What the invariant guarantees about a thread's view. A view of a cursor that has moved on
promises nothing; one that is still current promises the sequence number that was seen. -/
def ViewOk (cap : Nat) (log : List (Event Tid T)) (s : State Tid T) : View T → Prop
  | .nothing => True
  | .atTail pos ready =>
      pos ≤ s.tail ∧ (ready = true → pos = s.tail → s.seq (pos % cap) = pos)
  | .producing pos item written =>
      s.head ≤ pos ∧ pos < s.tail ∧ s.seq (pos % cap) = pos ∧ (pos, item) ∈ claims log ∧
        (written = true → s.data (pos % cap) = item)
  | .atHead pos ready =>
      pos ≤ s.head ∧ (ready = true → pos = s.head → s.seq (pos % cap) = pos + 1)
  | .removing pos read =>
      pos < s.head ∧ s.tail ≤ pos + cap ∧ s.seq (pos % cap) = pos + 1 ∧
        (pos, s.data (pos % cap)) ∈ claims log ∧
        ∀ item, read = some item → (pos, item) ∈ claims log

/-- The invariant of the ticket ring. `live` and `free` describe the `cap` positions from `head`
on, one for each slot: a claimed position is being written by its producer or published, and an
unclaimed one is free or still held by the remover of the previous lap. -/
structure Inv (cap : Nat) (log : List (Event Tid T)) (s : State Tid T) : Prop where
  le : s.head ≤ s.tail
  room : s.tail ≤ s.head + cap
  claimed : (claims log).map Prod.fst = List.range s.tail
  removed : removals log = List.range s.head
  live : ∀ p, s.head ≤ p → p < s.tail →
    (s.seq (p % cap) = p ∧ ∃ t, (s.view t).producingPos = some p) ∨
    (s.seq (p % cap) = p + 1 ∧ (p, s.data (p % cap)) ∈ claims log)
  free : ∀ p, s.tail ≤ p → p < s.head + cap →
    s.seq (p % cap) = p ∨
    (cap ≤ p ∧ s.seq (p % cap) = p + 1 - cap ∧ ∃ t, (s.view t).removingPos = some (p - cap))
  views : ∀ t, ViewOk cap log s (s.view t)
  producer_unique : ∀ t t' p, (s.view t).producingPos = some p →
    (s.view t').producingPos = some p → t = t'
  remover_unique : ∀ t t' p, (s.view t).removingPos = some p →
    (s.view t').removingPos = some p → t = t'
  observed_claimed : observed log ⊆ claims log
  returned_nodup : ((returned log).map Prod.fst).Nodup
  returned_lt : ∀ p ∈ (returned log).map Prod.fst, p < s.head
  returned_fresh : ∀ t p, (s.view t).removingPos = some p → p ∉ (returned log).map Prod.fst

end TicketRing
