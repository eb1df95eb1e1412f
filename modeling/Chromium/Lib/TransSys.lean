import Mathlib.Data.List.Induction

/-!
# Labelled transition systems and their runs

A `TransSys` is a set of initial states and a labelled step relation.  `Run` is
a finite run from an initial state, kept as the list of its labels and the
state it ends in.  A property of every run is proved once here as a rule, and
each use gives the initial case and the step case:

* `Run.invariant`: a property of states that every step keeps;
* `Run.traceInvariant`: a property of the labels so far and of the state.

`restrict P` is the system whose steps must also satisfy `P`; its runs are the
runs of the system all of whose steps satisfy `P`.
-/

namespace Lib

universe u v

/-- A labelled transition system: its initial states and its labelled steps. -/
structure TransSys (State : Type u) (Label : Type v) where
  init : State → Prop
  step : State → Label → State → Prop

namespace TransSys

variable {State : Type u} {Label : Type v}

/-- `S.Run tr s`: a run of `S` with the labels `tr` ends in the state `s`. -/
inductive Run (S : TransSys State Label) : List Label → State → Prop
  | init {s : State} : S.init s → Run S [] s
  | step {tr : List Label} {s s' : State} {l : Label} :
      Run S tr s → S.step s l s' → Run S (tr ++ [l]) s'

variable {S : TransSys State Label}

/-- **A property of states that holds initially and that every step keeps holds
at the end of every run.** -/
theorem Run.invariant {I : State → Prop} (h0 : ∀ s, S.init s → I s)
    (hstep : ∀ s l s', I s → S.step s l s' → I s') {tr : List Label} {s : State}
    (h : S.Run tr s) : I s := by
  induction h with
  | init h => exact h0 _ h
  | step _ hst ih => exact hstep _ _ _ ih hst

theorem Run.traceInvariant {I : List Label → State → Prop} (h0 : ∀ s, S.init s → I [] s)
    (hstep : ∀ tr s l s', I tr s → S.step s l s' → I (tr ++ [l]) s') {tr : List Label} {s : State}
    (h : S.Run tr s) : I tr s := by
  induction h with
  | init h => exact h0 _ h
  | step _ hst ih => exact hstep _ _ _ _ ih hst

/-- The system whose steps must also satisfy `P`. -/
def restrict (S : TransSys State Label) (P : State → Label → Prop) : TransSys State Label where
  init := S.init
  step s l s' := P s l ∧ S.step s l s'

theorem Run.of_restrict {P : State → Label → Prop} {tr : List Label} {s : State}
    (h : (S.restrict P).Run tr s) : S.Run tr s := by
  induction h with
  | init h => exact .init h
  | step _ hst ih => exact .step ih hst.2

theorem Run.foldlM {f : State → Label → Option State} (hf : ∀ s l s', f s l = some s' → S.step s l s')
    {tr tr' : List Label} {s s' : State} (h : S.Run tr s) (hsteps : tr'.foldlM f s = some s') :
    S.Run (tr ++ tr') s' := by
  induction tr' generalizing tr s with
  | nil =>
    cases hsteps
    rw [List.append_nil]
    exact h
  | cons l tr' ih =>
    obtain ⟨s₁, hstep, hrest⟩ := Option.bind_eq_some_iff.1 hsteps
    rw [List.append_cons]
    exact ih (.step h (hf s l s₁ hstep)) hrest

end TransSys

end Lib
