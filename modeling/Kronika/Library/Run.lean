/-
Runs of a state machine over a list of inputs.

`finish step s is` is the state after the inputs `is`.  `Along ok step s is` says
that every input of the run meets `ok` in the state it meets.  The two rules are
the ones every result about whole runs uses: an invariant that each permitted
step keeps holds at the end of a permitted run, and two machines related by a
simulation produce the same outputs.
-/
import Mathlib.Data.List.Basic

namespace Kronika.Run

variable {σ τ ι o : Type*}

def finish (step : σ → ι → σ) (s : σ) (inputs : List ι) : σ := inputs.foldl step s

@[simp] theorem finish_nil (step : σ → ι → σ) (s : σ) : finish step s [] = s := rfl

@[simp] theorem finish_cons (step : σ → ι → σ) (s : σ) (i : ι) (inputs : List ι) :
    finish step s (i :: inputs) = finish step (step s i) inputs := rfl

theorem finish_append (step : σ → ι → σ) (s : σ) (xs ys : List ι) :
    finish step s (xs ++ ys) = finish step (finish step s xs) ys :=
  List.foldl_append

/-- Every input of the run meets `ok` in the state the run is in when it is taken. -/
def Along (ok : σ → ι → Prop) (step : σ → ι → σ) : σ → List ι → Prop
  | _, [] => True
  | s, i :: inputs => ok s i ∧ Along ok step (step s i) inputs

variable {ok : σ → ι → Prop} {step : σ → ι → σ} {s : σ}

theorem along_append {xs ys : List ι} :
    Along ok step s (xs ++ ys) ↔ Along ok step s xs ∧ Along ok step (finish step s xs) ys := by
  induction xs generalizing s with
  | nil => simp [Along]
  | cons x xs ih => simp only [List.cons_append, Along, ih, finish_cons, and_assoc]

variable {inputs : List ι}

theorem Along.of_forall (h : ∀ s, ∀ i ∈ inputs, ok s i) : Along ok step s inputs := by
  induction inputs generalizing s with
  | nil => trivial
  | cons i inputs ih =>
    exact ⟨h s i List.mem_cons_self, ih (fun t j hj => h t j (List.mem_cons_of_mem i hj))⟩

theorem invariant {Inv : σ → Prop} (hstep : ∀ s, ∀ i ∈ inputs, Inv s → ok s i → Inv (step s i))
    (hinit : Inv s) (hrun : Along ok step s inputs) : Inv (finish step s inputs) := by
  induction inputs generalizing s with
  | nil => exact hinit
  | cons i inputs ih =>
    exact ih (fun s j hj => hstep s j (List.mem_cons_of_mem i hj))
      (hstep s i List.mem_cons_self hinit hrun.1) hrun.2

def outputs (step : σ → ι → σ × o) : σ → List ι → List o
  | _, [] => []
  | s, i :: inputs => (step s i).2 :: outputs step (step s i).1 inputs

theorem outputs_eq {R : σ → τ → Prop} {left : σ → ι → σ × o} {right : τ → ι → τ × o}
    {good : o → Prop} {t : τ}
    (hstep : ∀ s t, ∀ i ∈ inputs, R s t → good (left s i).2 → good (right t i).2 →
      (left s i).2 = (right t i).2 ∧ R (left s i).1 (right t i).1)
    (hinit : R s t) (hleft : ∀ x ∈ outputs left s inputs, good x)
    (hright : ∀ x ∈ outputs right t inputs, good x) :
    outputs left s inputs = outputs right t inputs := by
  induction inputs generalizing s t with
  | nil => rfl
  | cons i inputs ih =>
    obtain ⟨hout, hrel⟩ := hstep s t i List.mem_cons_self hinit
      (hleft _ List.mem_cons_self) (hright _ List.mem_cons_self)
    have htail := ih (fun s t j hj => hstep s t j (List.mem_cons_of_mem i hj)) hrel
      (fun x hx => hleft x (List.mem_cons_of_mem _ hx))
      (fun x hx => hright x (List.mem_cons_of_mem _ hx))
    rw [outputs, outputs, hout, htail]

end Kronika.Run
