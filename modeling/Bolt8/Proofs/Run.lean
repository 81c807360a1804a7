import Mathlib.Data.List.Induction

/-!
# Runs

A run of a system folds its step over a sequence of calls. `Always` says that
something holds at each call, of the state in which that call finds the
system; an invariant then carries one such statement over to another.
-/

namespace Bolt8

section

variable {σ γ : Type} {step : σ → γ → σ} {P Q : σ → γ → Prop} {Inv : σ → Prop}
variable {s : σ} {calls : List γ} {c : γ}

def Always (step : σ → γ → σ) (P : σ → γ → Prop) (s : σ) (calls : List γ) : Prop :=
  ∀ pre c post, calls = pre ++ c :: post → P (pre.foldl step s) c

theorem always_nil : Always step P s [] := by
  intro pre c post heq
  simp at heq

theorem always_cons :
    Always step P s (c :: calls) ↔ P s c ∧ Always step P (step s c) calls := by
  constructor
  · intro h
    exact ⟨h [] c calls rfl, fun pre d post heq => h (c :: pre) d post (by rw [heq]; rfl)⟩
  · rintro ⟨hc, hcalls⟩ pre d post heq
    cases pre with
    | nil =>
        obtain ⟨rfl, -⟩ := List.cons.inj heq
        exact hc
    | cons c' pre =>
        obtain ⟨rfl, htail⟩ := List.cons.inj heq
        exact hcalls pre d post htail

theorem always_append {later : List γ} :
    Always step P s (calls ++ later) ↔
      Always step P s calls ∧ Always step P (calls.foldl step s) later := by
  induction calls generalizing s with
  | nil =>
      exact ⟨fun h => ⟨always_nil, h⟩, And.right⟩
  | cons d calls ih =>
      rw [List.cons_append, always_cons, always_cons, ih, and_assoc]
      rfl

theorem always_snoc :
    Always step P s (calls ++ [c]) ↔ Always step P s calls ∧ P (calls.foldl step s) c := by
  rw [always_append, always_cons]
  exact and_congr_right' ⟨And.left, fun h => ⟨h, always_nil⟩⟩

/-- What each call preserves under `P` holds at the end. -/
theorem invariant_run (hstep : ∀ s c, Inv s → P s c → Inv (step s c)) (hs : Inv s)
    (h : Always step P s calls) : Inv (calls.foldl step s) := by
  induction calls using List.reverseRecOn with
  | nil =>
      exact hs
  | append_singleton calls c ih =>
      obtain ⟨hcalls, hc⟩ := always_snoc.1 h
      rw [List.foldl_append]
      exact hstep _ _ (ih hcalls) hc

/-- What follows from the invariant and `P` at each call holds throughout. -/
theorem always_of_invariant (hstep : ∀ s c, Inv s → P s c → Inv (step s c))
    (hQ : ∀ s c, Inv s → P s c → Q s c) (hs : Inv s) (h : Always step P s calls) :
    Always step Q s calls := by
  induction calls using List.reverseRecOn with
  | nil =>
      exact always_nil
  | append_singleton calls c ih =>
      obtain ⟨hcalls, hc⟩ := always_snoc.1 h
      exact always_snoc.2 ⟨ih hcalls, hQ _ _ (invariant_run hstep hs hcalls) hc⟩

end

end Bolt8
