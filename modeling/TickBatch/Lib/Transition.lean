import Mathlib.Data.List.Basic

/-!
# Runs of a labelled transition function

A machine is a partial function `step : σ → α → Option (σ × List ε)`: in a state, an action either
is not enabled or leads to a new state and emits observable events. `run` executes a list of
actions and collects the events. `run_invariant` is the induction rule that every safety result
uses: a property of the actions so far, the events so far and the state holds after every run as
soon as it holds initially and one step preserves it. `run_total` is the same rule for machines that
never get stuck. `Along` restricts a run to steps that meet a condition on the state before the
step. `testFrom` evaluates a concrete run, for the examples that go with a result.
-/

namespace Transition

variable {σ α ε : Type}

/-- Execute the actions in order, collecting the emitted events; an action that is not enabled
stops the run. -/
def run (step : σ → α → Option (σ × List ε)) : σ → List α → Option (σ × List ε)
  | s, [] => some (s, [])
  | s, a :: as => do
      let (s', es) ← step s a
      let (s'', es') ← run step s' as
      pure (s'', es ++ es')

/-- Whether something can be built, a computation from it has a result, and the two pass a test. -/
def testFrom {β γ : Type} (start : Option β) (compute : β → Option γ) (test : β → γ → Bool) :
    Bool :=
  start.any fun b => (compute b).any (test b)

theorem exists_of_testFrom {β γ : Type} {start : Option β} {compute : β → Option γ}
    {test : β → γ → Bool} (h : testFrom start compute test = true) :
    ∃ b out, start = some b ∧ compute b = some out ∧ test b out = true := by
  obtain ⟨b, hstart, h⟩ := (Option.any_eq_true _ _).mp h
  obtain ⟨out, hcompute, htest⟩ := (Option.any_eq_true _ _).mp h
  exact ⟨b, out, hstart, hcompute, htest⟩

/-- Every step of the run is taken from a state in which the action meets `ok`. -/
def Along (step : σ → α → Option (σ × List ε)) (ok : σ → α → Prop) : σ → List α → Prop
  | _, [] => True
  | s, a :: as => ok s a ∧ ∀ s' es, step s a = some (s', es) → Along step ok s' as

variable {step : σ → α → Option (σ × List ε)}

/-- A step function can be run, so whether a run keeps to a decidable condition can be tested. -/
instance decidableAlong {ok : σ → α → Prop} [∀ s a, Decidable (ok s a)] :
    ∀ s as, Decidable (Along step ok s as)
  | _, [] => isTrue trivial
  | s, a :: as =>
      match h : step s a with
      | none => decidable_of_iff (ok s a)
          ⟨fun hok => ⟨hok, fun _ _ h' => by rw [h] at h'; cases h'⟩, And.left⟩
      | some (s', es) =>
          have : Decidable (Along step ok s' as) := decidableAlong s' as
          decidable_of_iff (ok s a ∧ Along step ok s' as)
            ⟨fun ⟨hok, hrest⟩ => ⟨hok, fun _ _ h' => by rw [h] at h'; cases h'; exact hrest⟩,
              fun hall => ⟨hall.1, hall.2 s' es h⟩⟩

/-- A condition on the actions alone holds along every run. -/
theorem along_of_forall {ok : α → Prop} {as : List α} (h : ∀ a ∈ as, ok a) (s : σ) :
    Along step (fun _ a => ok a) s as := by
  induction as generalizing s with
  | nil => trivial
  | cons a as ih =>
      refine ⟨h a List.mem_cons_self, fun s' _ _ => ?_⟩
      exact ih (fun a ha => h a (List.mem_cons_of_mem _ ha)) s'

@[simp] theorem run_nil (s : σ) : run step s [] = some (s, []) := rfl

/-- A run of one action more is a step followed by a run. -/
theorem run_cons_eq_some {s s'' : σ} {a : α} {as : List α} {es : List ε} :
    run step s (a :: as) = some (s'', es) ↔
      ∃ s' first rest, step s a = some (s', first) ∧ run step s' as = some (s'', rest) ∧
        es = first ++ rest := by
  constructor
  · intro h
    simp only [run, bind, Option.bind_eq_some_iff, pure, Option.some.injEq, Prod.mk.injEq] at h
    obtain ⟨⟨s', first⟩, hstep, ⟨last, rest⟩, hrest, rfl, rfl⟩ := h
    exact ⟨s', first, rest, hstep, hrest, rfl⟩
  · rintro ⟨s', first, rest, hstep, hrest, rfl⟩
    simp [run, hstep, hrest]

/-- Two runs in a row. -/
theorem run_append {s s' s'' : σ} {as bs : List α} {es es' : List ε}
    (h : run step s as = some (s', es)) (h' : run step s' bs = some (s'', es')) :
    run step s (as ++ bs) = some (s'', es ++ es') := by
  induction as generalizing s es with
  | nil =>
      cases h
      simpa using h'
  | cons a as ih =>
      obtain ⟨next, first, rest, hfirst, hrest, rfl⟩ := run_cons_eq_some.mp h
      rw [List.append_assoc]
      exact run_cons_eq_some.mpr ⟨next, first, rest ++ es', hfirst, ih hrest, rfl⟩

/-- A run that leads back to where it started can be repeated. -/
theorem run_repeat {s : σ} {as : List α} {es : List ε} (h : run step s as = some (s, es))
    (n : Nat) : ∃ es', run step s (List.replicate n as).flatten = some (s, es') := by
  induction n with
  | zero => exact ⟨[], rfl⟩
  | succ n ih =>
      obtain ⟨es', ih⟩ := ih
      refine ⟨es ++ es', ?_⟩
      rw [List.replicate_succ, List.flatten_cons]
      exact run_append h ih

/-- The invariant rule along a run whose steps all meet `ok`, generalised over a prefix of actions
and events that has already happened. -/
theorem run_invariant_along_from {ok : σ → α → Prop} {I : List α → List ε → σ → Prop}
    (hstep : ∀ as es s a s' new, I as es s → ok s a → step s a = some (s', new) →
      I (as ++ [a]) (es ++ new) s')
    {as done : List α} {es past : List ε} {s s' : σ}
    (h : run step s as = some (s', es)) (hok : Along step ok s as) (hs : I done past s) :
    I (done ++ as) (past ++ es) s' := by
  induction as generalizing s done past es with
  | nil =>
      simp only [run_nil, Option.some.injEq, Prod.mk.injEq] at h
      obtain ⟨rfl, rfl⟩ := h
      simpa using hs
  | cons a as ih =>
      obtain ⟨next, first, rest, hfirst, hrest, rfl⟩ := run_cons_eq_some.mp h
      have hnext := hstep done past s a next first hs hok.1 hfirst
      have hfinal := ih hrest (hok.2 next first hfirst) hnext
      simpa using hfinal

/-- An invariant preserved by the steps that meet `ok` holds after every run made of such steps. -/
theorem run_invariant_along {ok : σ → α → Prop} {I : List α → List ε → σ → Prop}
    (hstep : ∀ as es s a s' new, I as es s → ok s a → step s a = some (s', new) →
      I (as ++ [a]) (es ++ new) s')
    {as : List α} {es : List ε} {s s' : σ} (hinit : I [] [] s)
    (h : run step s as = some (s', es)) (hok : Along step ok s as) : I as es s' := by
  simpa using run_invariant_along_from hstep h hok hinit

/-- The trivial condition is met along every run. -/
theorem along_true (s : σ) (as : List α) : Along step (fun _ _ => True) s as := by
  induction as generalizing s with
  | nil => trivial
  | cons a as ih => exact ⟨trivial, fun s' _ _ => ih s'⟩

/-- An invariant preserved by every step holds after every run. -/
theorem run_invariant {I : List α → List ε → σ → Prop}
    (hstep : ∀ as es s a s' new, I as es s → step s a = some (s', new) →
      I (as ++ [a]) (es ++ new) s')
    {as : List α} {es : List ε} {s s' : σ} (hinit : I [] [] s)
    (h : run step s as = some (s', es)) : I as es s' :=
  run_invariant_along (fun as es s a s' new hs _ hnext => hstep as es s a s' new hs hnext)
    hinit h (along_true s as)

/-- A machine in which every action is enabled wherever an invariant holds, and leads to a state in
which it holds again, never gets stuck. -/
theorem run_total {I : List α → List ε → σ → Prop}
    (hstep : ∀ as es s a, I as es s → ∃ s' new, step s a = some (s', new) ∧
      I (as ++ [a]) (es ++ new) s')
    {s : σ} (hinit : I [] [] s) (as : List α) :
    ∃ s' es, run step s as = some (s', es) ∧ I as es s' := by
  suffices hrun : ∀ done past s, I done past s →
      ∃ s' es, run step s as = some (s', es) ∧ I (done ++ as) (past ++ es) s' by
    simpa using hrun [] [] s hinit
  induction as with
  | nil =>
      intro done past s hs
      exact ⟨s, [], rfl, by simpa using hs⟩
  | cons a as ih =>
      intro done past s hs
      obtain ⟨next, first, hfirst, hnext⟩ := hstep done past s a hs
      obtain ⟨s', rest, hrest, hfinal⟩ := ih (done ++ [a]) (past ++ first) next hnext
      refine ⟨s', first ++ rest, run_cons_eq_some.mpr ⟨next, first, rest, hfirst, hrest, rfl⟩, ?_⟩
      simpa using hfinal

/-- Two conditions that agree wherever an invariant holds are met along the same runs. -/
theorem along_congr {ok ok' : σ → α → Prop} {I : σ → Prop}
    (hstep : ∀ s a s' new, I s → step s a = some (s', new) → I s')
    (hiff : ∀ s a, I s → (ok s a ↔ ok' s a)) {s : σ} (as : List α) (hs : I s) :
    Along step ok s as ↔ Along step ok' s as := by
  induction as generalizing s with
  | nil => exact Iff.rfl
  | cons a as ih =>
      refine and_congr (hiff s a hs) (forall_congr' fun s' => forall_congr' fun es => ?_)
      exact imp_congr_right fun hnext => ih (hstep s a s' es hs hnext)

end Transition
