/-
Bowst.Lib.Machine — machines that step on inputs and emit as they go.

A machine answers an input with the state behind it and what it emits. The history
of a run is all that it emitted. An invariant may speak of the state and of the
history (`runMachine_induction`), and a machine made of others runs each of them
(`runMachine_projects`).
-/
import Mathlib.Data.List.Basic

namespace Bowst.Lib

variable {σ ι ω τ κ ν : Type*} {act : σ → ι → σ × List ω}

/-- The state behind inputs, and the history. -/
def runMachine (act : σ → ι → σ × List ω) (s : σ) : List ι → σ × List ω
  | [] => (s, [])
  | i :: is =>
      let rest := runMachine act (act s i).1 is
      (rest.1, (act s i).2 ++ rest.2)

@[simp] theorem runMachine_nil (s : σ) : runMachine act s [] = (s, []) := rfl

@[simp] theorem runMachine_cons (s : σ) (i : ι) (is : List ι) :
    runMachine act s (i :: is) =
      ((runMachine act (act s i).1 is).1, (act s i).2 ++ (runMachine act (act s i).1 is).2) := rfl

/-- What every step keeps, of the state and the history behind it, a run keeps. -/
theorem runMachine_induction {inv : σ → List ω → Prop}
    (hstep : ∀ s history i, inv s history → inv (act s i).1 (history ++ (act s i).2)) :
    ∀ (is : List ι) {s : σ} {history : List ω}, inv s history →
      inv (runMachine act s is).1 (history ++ (runMachine act s is).2) := by
  intro is
  induction is with
  | nil => intro s history h; simpa using h
  | cons i is ih =>
      intro s history h
      have hrest := ih (hstep s history i h)
      simpa using hrest

theorem runMachine_append (s : σ) (is js : List ι) :
    runMachine act s (is ++ js) =
      ((runMachine act (runMachine act s is).1 js).1,
        (runMachine act s is).2 ++ (runMachine act (runMachine act s is).1 js).2) := by
  induction is generalizing s with
  | nil => simp
  | cons i is ih => simp [ih]

/-- Where each step is a run of another machine on a part of the state, with the part of
the history that is about it, so is a run. -/
theorem runMachine_projects {act' : τ → κ → τ × List ν} {part : σ → τ} {about : ω → Option ν}
    (hstep : ∀ s i, ∃ js, runMachine act' (part s) js =
      (part (act s i).1, (act s i).2.filterMap about)) (s : σ) (is : List ι) :
    ∃ js, runMachine act' (part s) js =
      (part (runMachine act s is).1, (runMachine act s is).2.filterMap about) := by
  induction is generalizing s with
  | nil => exact ⟨[], rfl⟩
  | cons i is ih =>
      obtain ⟨js, hjs⟩ := hstep s i
      obtain ⟨ks, hks⟩ := ih (act s i).1
      refine ⟨js ++ ks, ?_⟩
      simp [runMachine_append, hjs, hks]

end Bowst.Lib
