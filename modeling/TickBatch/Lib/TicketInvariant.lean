import Mathlib.Data.Nat.ModEq
import TickBatch.Lib.TicketRing

/-!
# The ticket ring keeps its invariant

`Inv.step` proves that every step of a ring with at least two slots preserves `Inv`. Steps that
only change what a thread has seen are covered by `Inv.setView`; the five that touch shared memory
(`claim`, `write`, `publish`, `remove`, `recycle`) have a lemma each. The argument is always the
same: the `cap` positions from `head` on occupy pairwise different slots (`slot_ne`), so an update
of one slot is invisible to every other position a thread may rely on.
-/

namespace TicketRing

variable {Tid T : Type} {cap : Nat} {log : List (Event Tid T)} {s : State Tid T}

/-- Two positions less than a lap apart live in different slots. -/
theorem slot_ne {p q : Nat} (hlt : p < q) (hlap : q < p + cap) : p % cap ≠ q % cap := by
  intro heq
  have hdvd : cap ∣ q - p := (Nat.modEq_iff_dvd' hlt.le).mp heq
  have hle := Nat.le_of_dvd (by omega) hdvd
  omega

/-- Two different positions of one lap live in different slots. -/
theorem slot_ne_of_window (lo : Nat) {p q : Nat} (hp : lo ≤ p) (hp' : p < lo + cap)
    (hq : lo ≤ q) (hq' : q < lo + cap) (hne : p ≠ q) : p % cap ≠ q % cap := by
  rcases Nat.lt_or_gt_of_ne hne with h | h
  · exact slot_ne h (by omega)
  · exact (slot_ne h (by omega)).symm

/-- The empty ring satisfies the invariant: slot `i` waits for position `i`, and no thread has
started. -/
theorem Inv.initial (hhead : s.head = 0) (htail : s.tail = 0) (hseq : ∀ i < cap, s.seq i = i)
    (hview : ∀ t, s.view t = .nothing) : Inv cap ([] : List (Event Tid T)) s where
  le := by omega
  room := by omega
  claimed := by rw [htail]; rfl
  removed := by rw [hhead]; rfl
  live p _ hp := by omega
  free p _ hp := by
    have hlt : p < cap := by omega
    exact Or.inl (by rw [Nat.mod_eq_of_lt hlt, hseq p hlt])
  views t := by rw [hview t]; trivial
  producer_unique t _ _ h := by simp [hview t, View.producingPos] at h
  remover_unique t _ _ h := by simp [hview t, View.removingPos] at h
  observed_claimed := by simp [observed]
  returned_nodup := by simp [returned]
  returned_lt := by simp [returned]
  returned_fresh := by simp [returned]

/-- Claims are never forgotten, so a view that was right stays right as the log grows. -/
theorem ViewOk.append {v : View T} (h : ViewOk cap log s v) (new : List (Event Tid T)) :
    ViewOk cap (log ++ new) s v := by
  cases v with
  | nothing => trivial
  | atTail pos ready => exact h
  | atHead pos ready => exact h
  | producing pos item written =>
      obtain ⟨hh, ht, hseq, hclaim, hdata⟩ := h
      exact ⟨hh, ht, hseq, by simp [hclaim], hdata⟩
  | removing pos read =>
      obtain ⟨hh, ht, hseq, hclaim, hread⟩ := h
      exact ⟨hh, ht, hseq, by simp [hclaim], fun item hi => by simp [hread item hi]⟩

namespace Inv

/-- Events that neither claim, remove nor return leave the invariant alone, provided the items
they report were claimed. -/
theorem append (h : Inv cap log s) {new : List (Event Tid T)} (hclaims : claims new = [])
    (hremovals : removals new = []) (hreturned : returned new = [])
    (hobserved : observed new ⊆ claims log) : Inv cap (log ++ new) s where
  le := h.le
  room := h.room
  claimed := by simp [hclaims, h.claimed]
  removed := by simp [hremovals, h.removed]
  live p hp hp' := by simpa [hclaims] using h.live p hp hp'
  free := h.free
  views t := (h.views t).append new
  producer_unique := h.producer_unique
  remover_unique := h.remover_unique
  observed_claimed := by
    simpa [hclaims] using ⟨h.observed_claimed, hobserved⟩
  returned_nodup := by simpa [hreturned] using h.returned_nodup
  returned_lt := by simpa [hreturned] using h.returned_lt
  returned_fresh := by simpa [hreturned] using h.returned_fresh

/-- A claimed position carries one item only. -/
theorem claim_unique (h : Inv cap log s) {p : Nat} {x y : T} (hx : (p, x) ∈ claims log)
    (hy : (p, y) ∈ claims log) : x = y := by
  have hnodup : ((claims log).map Prod.fst).Nodup := by
    rw [h.claimed]
    exact List.nodup_range
  exact congrArg Prod.snd (List.inj_on_of_nodup_map hnodup hx hy rfl)

/-- A position being produced is claimed, not yet removed, and its slot still shows it. -/
theorem producing (h : Inv cap log s) {t : Tid} {p : Nat}
    (ht : (s.view t).producingPos = some p) :
    s.head ≤ p ∧ p < s.tail ∧ s.seq (p % cap) = p := by
  have hv := h.views t
  cases hw : s.view t <;> simp only [hw, View.producingPos, Option.some.injEq, reduceCtorEq] at ht
  subst ht
  rw [hw] at hv
  exact ⟨hv.1, hv.2.1, hv.2.2.1⟩

/-- A position being removed is below the head, within the last lap, and its slot still shows it
as published. -/
theorem removing (h : Inv cap log s) {t : Tid} {p : Nat}
    (ht : (s.view t).removingPos = some p) :
    p < s.head ∧ s.tail ≤ p + cap ∧ s.seq (p % cap) = p + 1 := by
  have hv := h.views t
  cases hw : s.view t <;> simp only [hw, View.removingPos, Option.some.injEq, reduceCtorEq] at ht
  subst ht
  rw [hw] at hv
  exact ⟨hv.1, hv.2.1, hv.2.2.1⟩

/-- Two threads that own positions of the same slot are the same thread. -/
theorem owner_unique (h : Inv cap log s) {t t' : Tid} {p p' : Nat}
    (ht : (s.view t).ownedPos = some p) (ht' : (s.view t').ownedPos = some p')
    (hslot : p % cap = p' % cap) : t = t' := by
  have hle := h.le
  have hroom := h.room
  -- a producer's position lies in the current lap, a remover's within the lap before the tail
  have hcases : ∀ u q, (s.view u).ownedPos = some q →
      (s.view u).producingPos = some q ∨ (s.view u).removingPos = some q := by
    intro u q hu
    cases hw : s.view u <;> simp_all [View.ownedPos, View.producingPos, View.removingPos]
  rcases hcases t p ht with hp | hr <;> rcases hcases t' p' ht' with hp' | hr'
  · have hwin := h.producing hp
    have hwin' := h.producing hp'
    have heq : p = p' := by
      by_contra hne
      exact slot_ne_of_window s.head (by omega) (by omega) (by omega) (by omega) hne hslot
    subst heq
    exact h.producer_unique t t' p hp hp'
  · have hwin := h.producing hp
    have hwin' := h.removing hr'
    exact absurd hslot.symm (slot_ne (by omega) (by omega))
  · have hwin := h.removing hr
    have hwin' := h.producing hp'
    exact absurd hslot (slot_ne (by omega) (by omega))
  · have hwin := h.removing hr
    have hwin' := h.removing hr'
    have heq : p = p' := by
      by_contra hne
      exact slot_ne_of_window (s.tail - cap) (by omega) (by omega) (by omega) (by omega) hne hslot
    subst heq
    exact h.remover_unique t t' p hr hr'

/-- A ring whose tail slot is free is not full. With a single slot this fails: the published head
position then carries the very number the tail waits for. -/
theorem tail_lt (h : Inv cap log s) (hcap : 2 ≤ cap) (hready : s.seq (s.tail % cap) = s.tail) :
    s.tail < s.head + cap := by
  by_contra hfull
  have htail : s.tail = s.head + cap := by have := h.room; omega
  rw [htail, Nat.add_mod_right] at hready
  rcases h.live s.head le_rfl (by omega) with ⟨hseq, _⟩ | ⟨hseq, _⟩ <;> omega

/-- A ring whose head slot is published is not empty. -/
theorem head_lt (h : Inv cap log s) (hcap : 2 ≤ cap) (hready : s.seq (s.head % cap) = s.head + 1) :
    s.head < s.tail := by
  by_contra hempty
  rcases h.free s.head (by omega) (by omega) with hseq | ⟨_, hseq, _⟩ <;> omega

/-- The slot of a position below the head has moved past it: its number is that of a position `p` of
the same slot in the current lap, unless a producer or a remover holds it a little longer. -/
theorem seq_of_lt_head (h : Inv cap log s) (hcap : 2 ≤ cap) {pos : Nat} (hpos : pos < s.head) :
    ∃ p < s.head + cap, cap ∣ p - pos ∧ pos < s.seq (pos % cap) ∧
      (s.seq (pos % cap) ≤ s.tail ∨ s.seq (pos % cap) ≤ p) := by
  -- the first position of the slot that has not been removed
  let p := pos + cap * ((s.head - pos + cap - 1) / cap)
  have hdiv := Nat.div_add_mod (s.head - pos + cap - 1) cap
  have hmod := Nat.mod_lt (s.head - pos + cap - 1) (show 0 < cap by omega)
  have hlo : s.head ≤ p := by omega
  have hhi : p < s.head + cap := by omega
  have hslot : p % cap = pos % cap := Nat.add_mul_mod_self_left _ _ _
  have hdvd : cap ∣ p - pos := by
    rw [Nat.add_sub_cancel_left]
    exact Nat.dvd_mul_right _ _
  have hlap : pos + cap ≤ p := by
    have := Nat.le_of_dvd (by omega) hdvd
    omega
  refine ⟨p, hhi, hdvd, ?_⟩
  rw [← hslot]
  by_cases htail : p < s.tail
  · rcases h.live p hlo htail with ⟨hseq, _⟩ | ⟨hseq, _⟩ <;> omega
  · rcases h.free p (by omega) hhi with hseq | ⟨_, hseq, _⟩ <;> omega

/-- The slot of a removed position meets no position a thread still relies on, other than the one
a lap later. -/
theorem recycle_slot (h : Inv cap log s) {t : Tid} {pos p : Nat}
    (ht : (s.view t).removingPos = some pos) (hlo : pos < p) (hhi : p < s.head + cap)
    (hne : p ≠ pos + cap) : p % cap ≠ pos % cap := by
  obtain ⟨hpos, hlap, _⟩ := h.removing ht
  have hle := h.le
  rcases Nat.lt_or_gt_of_ne hne with hlt | hgt
  · exact (slot_ne hlo hlt).symm
  · have hslot : (pos + cap) % cap ≠ p % cap := slot_ne hgt (by omega)
    rw [Nat.add_mod_right] at hslot
    exact hslot.symm

end Inv

/-! ## Replacing one thread's view -/

section Update

variable [DecidableEq Tid] {view : Tid → View T} {t : Tid} {v : View T}
  {owned : View T → Option Nat}

/-- Ownership stays exclusive when a thread takes a position that no other thread owns. -/
theorem unique_update
    (huniq : ∀ u u' p, owned (view u) = some p → owned (view u') = some p → u = u')
    (hfresh : ∀ u p, u ≠ t → owned (view u) = some p → owned v ≠ some p) (u u' : Tid) (p : Nat)
    (hu : owned (Function.update view t v u) = some p)
    (hu' : owned (Function.update view t v u') = some p) : u = u' := by
  by_cases h : u = t <;> by_cases h' : u' = t
  · rw [h, h']
  · subst h
    rw [Function.update_self] at hu
    rw [Function.update_of_ne h'] at hu'
    exact absurd hu (hfresh u' p h' hu')
  · subst h'
    rw [Function.update_self] at hu'
    rw [Function.update_of_ne h] at hu
    exact absurd hu' (hfresh u p h hu)
  · rw [Function.update_of_ne h] at hu
    rw [Function.update_of_ne h'] at hu'
    exact huniq u u' p hu hu'

/-- An owner is still there after a thread that does not own the position has moved on. -/
theorem exists_update {p : Nat} (h : ∃ u, owned (view u) = some p)
    (ht : owned (view t) ≠ some p) : ∃ u, owned (Function.update view t v u) = some p := by
  obtain ⟨u, hu⟩ := h
  have hne : u ≠ t := by
    rintro rfl
    exact ht hu
  exact ⟨u, by rwa [Function.update_of_ne hne]⟩

/-- The owned positions do not change when the new view owns what the old one did. -/
theorem owned_update (view : Tid → View T) (h : owned v = owned (view t)) (u : Tid) :
    owned (Function.update view t v u) = owned (view u) := by
  by_cases hu : u = t
  · subst hu
    rw [Function.update_self, h]
  · rw [Function.update_of_ne hu]

/-- Whatever is owned after a thread has moved to a view that owns nothing was owned before, by
another thread. -/
theorem owned_of_update (hv : owned v = none) {u : Tid} {p : Nat}
    (hu : owned (Function.update view t v u) = some p) : u ≠ t ∧ owned (view u) = some p := by
  by_cases h : u = t
  · subst h
    rw [Function.update_self, hv] at hu
    cases hu
  · rw [Function.update_of_ne h] at hu
    exact ⟨h, hu⟩

end Update

namespace Inv

variable [DecidableEq Tid]

/-- Replacing a view by one that owns the same positions and is right keeps the invariant. -/
theorem setView (h : Inv cap log s) {t : Tid} {v : View T}
    (hproducing : v.producingPos = (s.view t).producingPos)
    (hremoving : v.removingPos = (s.view t).removingPos) (hv : ViewOk cap log s v) :
    Inv cap log (s.setView t v) := by
  have hp := owned_update s.view hproducing
  have hr := owned_update s.view hremoving
  have hok : ∀ w, ViewOk cap log s w → ViewOk cap log (s.setView t v) w := by
    intro w hw
    cases w <;> exact hw
  refine ⟨h.le, h.room, h.claimed, h.removed, ?_, ?_, ?_, ?_, ?_, h.observed_claimed,
    h.returned_nodup, h.returned_lt, ?_⟩
  · intro p hlo hhi
    simpa only [State.setView, hp] using h.live p hlo hhi
  · intro p hlo hhi
    simpa only [State.setView, hr] using h.free p hlo hhi
  · refine (Function.forall_update_iff s.view fun _ w => ViewOk cap log (s.setView t v) w).mpr ?_
    exact ⟨hok v hv, fun u _ => hok _ (h.views u)⟩
  · intro u u' p
    simpa only [State.setView, hp] using h.producer_unique u u' p
  · intro u u' p
    simpa only [State.setView, hr] using h.remover_unique u u' p
  · intro u p
    simpa only [State.setView, hr] using h.returned_fresh u p

/-- Claiming the tail position of a ring whose tail slot was seen ready. -/
theorem claim (h : Inv cap log s) (hcap : 2 ≤ cap) {t : Tid} {pos : Nat} {item : T}
    (hview : s.view t = .atTail pos true) (htail : s.tail = pos) :
    Inv cap (log ++ [.claim t pos item])
      { s.setView t (.producing pos item false) with tail := pos + 1 } := by
  subst htail
  have hready : s.seq (s.tail % cap) = s.tail := by
    have hv := h.views t
    rw [hview] at hv
    exact hv.2 rfl rfl
  have hroom := h.tail_lt hcap hready
  have hclaims : claims [Event.claim t s.tail item] = [(s.tail, item)] := rfl
  refine ⟨h.le.trans (Nat.le_succ _), hroom, ?_, ?_, ?_, ?_, ?_, ?_, ?_, ?_, ?_, ?_, ?_⟩
  · simp [hclaims, h.claimed, List.range_succ]
  · simpa [removals] using h.removed
  · intro p hlo hhi
    by_cases hp : p = s.tail
    · subst hp
      exact Or.inl ⟨hready, t, by simp [View.producingPos]⟩
    · have hlt : p < s.tail := by
        simp only at hhi
        omega
      rcases h.live p hlo hlt with ⟨hseq, hex⟩ | ⟨hseq, hmem⟩
      · exact Or.inl ⟨hseq, exists_update hex (by simp [hview, View.producingPos])⟩
      · exact Or.inr ⟨hseq, by simp [hmem]⟩
  · intro p hlo hhi
    rcases h.free p (Nat.le_of_succ_le hlo) hhi with hseq | ⟨hle, hseq, hex⟩
    · exact Or.inl hseq
    · exact Or.inr ⟨hle, hseq, exists_update hex (by simp [hview, View.removingPos])⟩
  · refine (Function.forall_update_iff s.view _).mpr ⟨?_, fun u _ => ?_⟩
    · exact ⟨h.le, Nat.lt_succ_self _, hready, by simp [hclaims], by simp⟩
    · have hv := (h.views u).append [Event.claim t s.tail item]
      cases hw : s.view u with
      | nothing => trivial
      | atTail pos ready =>
          rw [hw] at hv
          obtain ⟨hpos, _⟩ := hv
          exact ⟨hpos.trans (Nat.le_succ _), fun _ heq => absurd heq (by simp only; omega)⟩
      | producing pos x written =>
          rw [hw] at hv
          exact ⟨hv.1, hv.2.1.trans (Nat.lt_succ_self _), hv.2.2⟩
      | atHead pos ready =>
          rw [hw] at hv
          exact hv
      | removing pos read =>
          rw [hw] at hv
          obtain ⟨hpos, hlap, hseq, hrest⟩ := hv
          -- the tail slot is ready, so the remover of the previous lap has left it
          have hne : s.tail ≠ pos + cap := by
            intro heq
            rw [heq, Nat.add_mod_right] at hready
            omega
          exact ⟨hpos, by simp only; omega, hseq, hrest⟩
  · refine unique_update h.producer_unique fun u p _ hu heq => ?_
    simp only [View.producingPos, Option.some.injEq] at heq
    have := h.producing hu
    omega
  · exact unique_update h.remover_unique fun u p _ _ => by simp [View.removingPos]
  · exact fun x hx => by
      have := h.observed_claimed (by simpa [observed] using hx)
      simp [this]
  · simpa [returned] using h.returned_nodup
  · simpa [returned] using h.returned_lt
  · intro u p hu
    simpa [returned] using h.returned_fresh u p (owned_of_update rfl hu).2

/-- Writing the item into a slot the thread owns. -/
theorem write (h : Inv cap log s) {t : Tid} {pos : Nat} {item : T}
    (hview : s.view t = .producing pos item false) :
    Inv cap log { s.setView t (.producing pos item true) with
      data := Function.update s.data (pos % cap) item } := by
  have hown : (s.view t).producingPos = some pos := by rw [hview]; rfl
  obtain ⟨hlo, hhi, hseq⟩ := h.producing hown
  have hroom := h.room
  have hsame : (View.producing pos item true).producingPos = (s.view t).producingPos ∧
      (View.producing pos item true).removingPos = (s.view t).removingPos := by
    rw [hview]
    exact ⟨rfl, rfl⟩
  have hp := owned_update s.view hsame.1
  have hr := owned_update s.view hsame.2
  refine ⟨h.le, h.room, h.claimed, h.removed, ?_, ?_, ?_, ?_, ?_, h.observed_claimed,
    h.returned_nodup, h.returned_lt, ?_⟩
  · intro p (hlo' : s.head ≤ p) (hhi' : p < s.tail)
    simp only [State.setView, hp]
    rcases h.live p hlo' hhi' with hw | ⟨hseq', hmem⟩
    · exact Or.inl hw
    · have hne : p ≠ pos := by
        rintro rfl
        omega
      have hslot : p % cap ≠ pos % cap :=
        slot_ne_of_window s.head hlo' (by omega) hlo (by omega) hne
      -- a published position is not the one being written, so its slot keeps its item
      exact Or.inr ⟨hseq', by rwa [Function.update_of_ne hslot]⟩
  · intro p hlo' hhi'
    simpa only [State.setView, hr] using h.free p hlo' hhi'
  · refine (Function.forall_update_iff s.view _).mpr ⟨?_, fun u hu => ?_⟩
    · have hv := h.views t
      rw [hview] at hv
      obtain ⟨_, _, _, hmem, _⟩ := hv
      exact ⟨hlo, hhi, hseq, hmem, fun _ => by simp⟩
    · have hv := h.views u
      cases hw : s.view u with
      | nothing => trivial
      | atTail p ready =>
          rw [hw] at hv
          exact hv
      | atHead p ready =>
          rw [hw] at hv
          exact hv
      | producing p x written =>
          rw [hw] at hv
          obtain ⟨hplo, hphi, hpseq, hpmem, hpdata⟩ := hv
          have hne : p ≠ pos := by
            rintro rfl
            exact hu (h.producer_unique u t p (by rw [hw]; rfl) hown)
          have hslot : p % cap ≠ pos % cap :=
            slot_ne_of_window s.head hplo (by omega) hlo (by omega) hne
          refine ⟨hplo, hphi, hpseq, hpmem, fun hwr => ?_⟩
          simp only [Function.update_of_ne hslot]
          exact hpdata hwr
      | removing p read =>
          rw [hw] at hv
          obtain ⟨hphead, hplap, hpseq, hpmem, hpread⟩ := hv
          -- a remover is behind the head and less than a lap behind every claimed position
          have hslot : p % cap ≠ pos % cap := slot_ne (by omega) (by omega)
          refine ⟨hphead, hplap, hpseq, ?_, hpread⟩
          simpa only [Function.update_of_ne hslot] using hpmem
  · intro u u' p
    simpa only [State.setView, hp] using h.producer_unique u u' p
  · intro u u' p
    simpa only [State.setView, hr] using h.remover_unique u u' p
  · intro u p
    simpa only [State.setView, hr] using h.returned_fresh u p

/-- Publishing a written position: its slot's number moves from `pos` to `pos + 1`. -/
theorem publish (h : Inv cap log s) (hcap : 2 ≤ cap) {t : Tid} {pos : Nat} {item : T}
    (hview : s.view t = .producing pos item true) :
    Inv cap (log ++ [.publish t pos item]) { s.setView t .nothing with
      seq := Function.update s.seq (pos % cap) (pos + 1) } := by
  have hown : (s.view t).producingPos = some pos := by rw [hview]; rfl
  have hvt := h.views t
  rw [hview] at hvt
  obtain ⟨hlo, hhi, hseq, hmem, hdata⟩ := hvt
  have hroom := h.room
  have hadd : Inv cap (log ++ [.publish t pos item]) s :=
    h.append rfl rfl rfl (by simpa [observed] using hmem)
  refine ⟨h.le, h.room, hadd.claimed, hadd.removed, ?_, ?_, ?_, ?_, ?_, hadd.observed_claimed,
    hadd.returned_nodup, hadd.returned_lt, ?_⟩
  · intro p (hlo' : s.head ≤ p) (hhi' : p < s.tail)
    by_cases hp : p = pos
    · subst hp
      refine Or.inr ⟨by simp, ?_⟩
      rw [claims_append, State.setView_data, hdata rfl]
      exact List.mem_append_left _ hmem
    · have hslot : p % cap ≠ pos % cap :=
        slot_ne_of_window s.head hlo' (by omega) hlo (by omega) hp
      simp only [Function.update_of_ne hslot]
      rcases hadd.live p hlo' hhi' with ⟨hseq', hex⟩ | hpub
      · exact Or.inl ⟨hseq', exists_update hex (by rw [hown]; simpa using Ne.symm hp)⟩
      · exact Or.inr hpub
  · intro p (hlo' : s.tail ≤ p) (hhi' : p < s.head + cap)
    have hslot : pos % cap ≠ p % cap := slot_ne (by omega) (by omega)
    simp only [Function.update_of_ne hslot.symm]
    rcases h.free p hlo' hhi' with hseq' | ⟨hle, hseq', hex⟩
    · exact Or.inl hseq'
    · exact Or.inr ⟨hle, hseq', exists_update hex (by simp [hview, View.removingPos])⟩
  · refine (Function.forall_update_iff s.view _).mpr ⟨trivial, fun u hu => ?_⟩
    have hv := hadd.views u
    cases hw : s.view u with
    | nothing => trivial
    | atTail p ready =>
        rw [hw] at hv
        refine ⟨hv.1, fun hr heq => ?_⟩
        simp only [State.setView_tail] at heq
        have hready := hv.2 hr heq
        -- a full ring would show `pos` in the tail slot, not the tail position
        have hlap : p ≠ pos + cap := by
          rintro rfl
          rw [Nat.add_mod_right] at hready
          omega
        have hslot : pos % cap ≠ p % cap := slot_ne (by omega) (by omega)
        simpa only [Function.update_of_ne hslot.symm] using hready
    | atHead p ready =>
        rw [hw] at hv
        refine ⟨hv.1, fun hr heq => ?_⟩
        simp only [State.setView_head] at heq
        have hready := hv.2 hr heq
        have hne : p ≠ pos := by
          rintro rfl
          omega
        have hslot : p % cap ≠ pos % cap := slot_ne (by omega) (by omega)
        simpa only [Function.update_of_ne hslot] using hready
    | producing p x written =>
        rw [hw] at hv
        have hne : p ≠ pos := by
          rintro rfl
          exact hu (h.producer_unique u t p (by rw [hw]; rfl) hown)
        have hslot : p % cap ≠ pos % cap :=
          slot_ne_of_window s.head hv.1 (by have := hv.2.1; omega) hlo (by omega) hne
        refine ⟨hv.1, hv.2.1, ?_, hv.2.2.2⟩
        simpa only [Function.update_of_ne hslot] using hv.2.2.1
    | removing p read =>
        rw [hw] at hv
        obtain ⟨hphead, hplap, hpseq, hprest⟩ := hv
        have hslot : p % cap ≠ pos % cap := slot_ne (by omega) (by omega)
        refine ⟨hphead, hplap, ?_, hprest⟩
        simpa only [Function.update_of_ne hslot] using hpseq
  · exact unique_update h.producer_unique fun u p _ _ => by simp [View.producingPos]
  · exact unique_update h.remover_unique fun u p _ _ => by simp [View.removingPos]
  · intro u p hu
    exact hadd.returned_fresh u p (owned_of_update rfl hu).2

/-- Removing the head position of a ring whose head slot was seen published. -/
theorem remove (h : Inv cap log s) (hcap : 2 ≤ cap) {t : Tid} {pos : Nat} {evicting : Bool}
    (hview : s.view t = .atHead pos true) (hhead : s.head = pos) :
    Inv cap (log ++ [.remove t pos evicting])
      { s.setView t (.removing pos none) with head := pos + 1 } := by
  subst hhead
  have hready : s.seq (s.head % cap) = s.head + 1 := by
    have hv := h.views t
    rw [hview] at hv
    exact hv.2 rfl rfl
  have hlt := h.head_lt hcap hready
  have hmem : (s.head, s.data (s.head % cap)) ∈ claims log := by
    rcases h.live s.head le_rfl hlt with ⟨hseq, _⟩ | ⟨_, hmem⟩
    · omega
    · exact hmem
  have hclaims : claims [Event.remove (T := T) t s.head evicting] = [] := rfl
  refine ⟨hlt, by simpa using h.room.trans (by omega), ?_, ?_, ?_, ?_, ?_, ?_, ?_, ?_, ?_, ?_, ?_⟩
  · simpa [hclaims] using h.claimed
  · rw [removals_append, h.removed]
    exact List.range_succ.symm
  · intro p hlo hhi
    rcases h.live p (Nat.le_of_succ_le hlo) hhi with ⟨hseq, hex⟩ | ⟨hseq, hpub⟩
    · exact Or.inl ⟨hseq, exists_update hex (by simp [hview, View.producingPos])⟩
    · exact Or.inr ⟨hseq, by simpa [hclaims] using hpub⟩
  · intro p hlo (hhi : p < s.head + 1 + cap)
    -- the window of free positions grows by one, whose slot `t` has not recycled yet
    by_cases hp : p = s.head + cap
    · subst hp
      refine Or.inr ⟨Nat.le_add_left _ _, ?_, t, ?_⟩
      · simp only [State.setView_seq, Nat.add_mod_right, hready]
        omega
      · simp [View.removingPos]
    · rcases h.free p hlo (by omega) with hseq | ⟨hle, hseq, hex⟩
      · exact Or.inl hseq
      · exact Or.inr ⟨hle, hseq, exists_update hex (by simp [hview, View.removingPos])⟩
  · refine (Function.forall_update_iff s.view _).mpr ⟨?_, fun u _ => ?_⟩
    · exact ⟨Nat.lt_succ_self _, h.room, hready, by simpa [hclaims] using hmem, by simp⟩
    · have hv := (h.views u).append [Event.remove t s.head evicting]
      cases hw : s.view u with
      | nothing => trivial
      | atTail p ready =>
          rw [hw] at hv
          exact hv
      | atHead p ready =>
          rw [hw] at hv
          obtain ⟨hpos, _⟩ := hv
          exact ⟨hpos.trans (Nat.le_succ _), fun _ heq => absurd heq (by simp only; omega)⟩
      | producing p x written =>
          rw [hw] at hv
          obtain ⟨hplo, hphi, hpseq, hprest⟩ := hv
          -- the head slot is published, so no producer is still writing it
          have hne : p ≠ s.head := by
            rintro rfl
            omega
          exact ⟨by simp only; omega, hphi, hpseq, hprest⟩
      | removing p read =>
          rw [hw] at hv
          exact ⟨hv.1.trans (Nat.lt_succ_self _), hv.2⟩
  · exact unique_update h.producer_unique fun u p _ _ => by simp [View.producingPos]
  · refine unique_update h.remover_unique fun u p _ hu heq => ?_
    simp only [View.removingPos, Option.some.injEq] at heq
    have := h.removing hu
    omega
  · simpa [hclaims, observed] using h.observed_claimed
  · simpa [returned] using h.returned_nodup
  · intro p hp
    exact (h.returned_lt p (by simpa [returned] using hp)).trans (Nat.lt_succ_self _)
  · intro u p hu hret
    have hret' : p ∈ (returned log).map Prod.fst := by simpa [returned] using hret
    by_cases hut : u = t
    · subst hut
      simp only [State.setView_view_self, View.removingPos, Option.some.injEq] at hu
      have := h.returned_lt p hret'
      omega
    · rw [State.setView_view_other _ _ hut] at hu
      exact h.returned_fresh u p hu hret'

/-- Recycling a removed position: its slot's number moves to the position of the next lap. -/
theorem recycle (h : Inv cap log s) (hcap : 2 ≤ cap) {t : Tid} {pos : Nat} {taken : Option T}
    (hview : s.view t = .removing pos taken) :
    Inv cap (log ++ [.recycle t pos taken]) { s.setView t .nothing with
      seq := Function.update s.seq (pos % cap) (pos + cap) } := by
  have hown : (s.view t).removingPos = some pos := by rw [hview]; rfl
  have hvt := h.views t
  rw [hview] at hvt
  obtain ⟨hpos, hlap, hseq, hmem, htaken⟩ := hvt
  have hle := h.le
  have hclaims : claims [Event.recycle t pos taken] = [] := rfl
  have hslot {p : Nat} := h.recycle_slot (p := p) hown
  refine ⟨h.le, h.room, ?_, ?_, ?_, ?_, ?_, ?_, ?_, ?_, ?_, ?_, ?_⟩
  · simpa [hclaims] using h.claimed
  · simpa [removals] using h.removed
  · intro p (hlo : s.head ≤ p) (hhi : p < s.tail)
    simp only [Function.update_of_ne (hslot (p := p) (by omega) (by omega) (by omega))]
    rcases h.live p hlo hhi with ⟨hseq', hex⟩ | ⟨hseq', hpub⟩
    · exact Or.inl ⟨hseq', exists_update hex (by simp [hview, View.producingPos])⟩
    · exact Or.inr ⟨hseq', by simpa [hclaims] using hpub⟩
  · intro p (hlo : s.tail ≤ p) (hhi : p < s.head + cap)
    by_cases hp : p = pos + cap
    · subst hp
      exact Or.inl (by simp)
    · simp only [Function.update_of_ne (hslot (p := p) (by omega) hhi hp)]
      rcases h.free p hlo hhi with hseq' | ⟨hge, hseq', hex⟩
      · exact Or.inl hseq'
      · refine Or.inr ⟨hge, hseq', exists_update hex ?_⟩
        rw [hown]
        simp only [ne_eq, Option.some.injEq]
        omega
  · refine (Function.forall_update_iff s.view _).mpr ⟨trivial, fun u hu => ?_⟩
    have hv := (h.views u).append [Event.recycle t pos taken]
    cases hw : s.view u with
    | nothing => trivial
    | atTail p ready =>
        rw [hw] at hv
        refine ⟨hv.1, fun hr (heq : p = s.tail) => ?_⟩
        have hready := hv.2 hr heq
        by_cases hp : p = pos + cap
        · subst hp
          simp
        -- either the recycled slot has become the tail slot, or its number is not the one seen
        · have hnotfull := h.tail_lt hcap (heq ▸ hready)
          simpa only [Function.update_of_ne (hslot (p := p) (by omega) (by omega) hp)] using hready
    | atHead p ready =>
        rw [hw] at hv
        refine ⟨hv.1, fun hr (heq : p = s.head) => ?_⟩
        have hready := hv.2 hr heq
        have hnotempty := h.head_lt hcap (heq ▸ hready)
        simpa only [Function.update_of_ne (hslot (p := p) (by omega) (by omega) (by omega))]
          using hready
    | producing p x written =>
        rw [hw] at hv
        obtain ⟨hplo, hphi, hpseq, hprest⟩ := hv
        refine ⟨hplo, hphi, ?_, hprest⟩
        simpa only [Function.update_of_ne (hslot (p := p) (by omega) (by omega) (by omega))]
          using hpseq
    | removing p read =>
        rw [hw] at hv
        obtain ⟨hphead, hplap, hpseq, hprest⟩ := hv
        have hne : p ≠ pos := by
          rintro rfl
          exact hu (h.remover_unique u t p (by rw [hw]; rfl) hown)
        have hslot' : p % cap ≠ pos % cap :=
          -- both removers are less than a lap behind the tail
          slot_ne_of_window (s.tail - cap) (by omega) (by omega) (by omega) (by omega) hne
        refine ⟨hphead, hplap, ?_, hprest⟩
        simpa only [Function.update_of_ne hslot'] using hpseq
  · exact unique_update h.producer_unique fun u p _ _ => by simp [View.producingPos]
  · exact unique_update h.remover_unique fun u p _ _ => by simp [View.removingPos]
  · have hnew : observed [Event.recycle t pos taken] ⊆ claims log := by
      cases taken with
      | none => simp [observed]
      | some item => simpa [observed] using htaken item rfl
    simpa [hclaims] using ⟨h.observed_claimed, hnew⟩
  · cases taken with
    | none => simpa [returned] using h.returned_nodup
    | some item =>
        rw [returned_append, List.map_append]
        refine h.returned_nodup.append (List.nodup_singleton pos) ?_
        exact List.disjoint_singleton.mpr (h.returned_fresh t pos hown)
  · intro p hp
    rw [returned_append, List.map_append, List.mem_append] at hp
    rcases hp with hp | hp
    · exact h.returned_lt p hp
    · cases taken <;> simp [returned] at hp
      exact hp ▸ hpos
  · intro u p hu hret
    obtain ⟨hne, hold⟩ := owned_of_update rfl hu
    rw [returned_append, List.map_append, List.mem_append] at hret
    rcases hret with hret | hret
    · exact h.returned_fresh u p hold hret
    · cases taken <;> simp [returned] at hret
      subst hret
      exact hne (h.remover_unique u t p hold hown)

/-- Every step of a ring with at least two slots preserves the invariant. -/
theorem step (h : Inv cap log s) (hcap : 2 ≤ cap) {new : List (Event Tid T)} {s' : State Tid T}
    (hstep : Step cap s new s') : Inv cap (log ++ new) s' := by
  cases hstep with
  | stutter => simpa using h
  | reset t hp hr =>
      simpa using h.setView (v := .nothing) (by rw [hp]; rfl) (by rw [hr]; rfl) trivial
  | loadTail t hp hr =>
      have hv : ViewOk cap log s (.atTail s.tail false) := ⟨le_rfl, by simp⟩
      simpa using h.setView (by rw [hp]; rfl) (by rw [hr]; rfl) hv
  | checkTail t pos ready hview hseq =>
      have hold := h.views t
      rw [hview] at hold
      have hv : ViewOk cap log s (.atTail pos true) := ⟨hold.1, fun _ _ => hseq⟩
      simpa using h.setView (by rw [hview]; rfl) (by rw [hview]; rfl) hv
  | claim t pos item hview htail => exact h.claim hcap hview htail
  | write t pos item hview => simpa using h.write hview
  | publish t pos item hview => exact h.publish hcap hview
  | loadHead t hp hr =>
      have hv : ViewOk cap log s (.atHead s.head false) := ⟨le_rfl, by simp⟩
      simpa using h.setView (by rw [hp]; rfl) (by rw [hr]; rfl) hv
  | checkHead t pos ready hview hseq =>
      have hold := h.views t
      rw [hview] at hold
      have hv : ViewOk cap log s (.atHead pos true) := ⟨hold.1, fun _ _ => hseq⟩
      simpa using h.setView (by rw [hview]; rfl) (by rw [hview]; rfl) hv
  | remove t pos evicting hview hhead => exact h.remove hcap hview hhead
  | read t pos hview =>
      have hold := h.views t
      rw [hview] at hold
      obtain ⟨hpos, hlap, hseq, hmem, _⟩ := hold
      have hv : ViewOk cap log s (.removing pos (some (s.data (pos % cap)))) := by
        refine ⟨hpos, hlap, hseq, hmem, ?_⟩
        rintro item ⟨⟩
        exact hmem
      simpa using h.setView (by rw [hview]; rfl) (by rw [hview]; rfl) hv
  | use t pos item hview =>
      have hold := h.views t
      rw [hview] at hold
      exact h.append rfl rfl rfl (by simpa [observed] using hold.2.2.2.2 item rfl)
  | recycle t pos taken hview => exact h.recycle hcap hview

end Inv

end TicketRing
