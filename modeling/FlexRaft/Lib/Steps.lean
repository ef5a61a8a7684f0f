import Mathlib.Data.Option.Basic

namespace Steps

variable {S L : Type} {labels : List L}

/-- A system takes labelled steps, which need not always be possible. `Reach step ok s s'`: some run leads
from `s` to `s'`, and each of its steps meets the condition `ok`. -/
inductive Reach (step : S → L → Option S) (ok : S → L → Prop) (s : S) : S → Prop
  | refl : Reach step ok s s
  | next {s' s'' : S} {l : L} (reach : Reach step ok s s') (allowed : ok s' l) (steps : step s' l = some s'') :
      Reach step ok s s''

/-- Runs the given steps, as long as they are possible and meet the condition. -/
def exec (step : S → L → Option S) (ok : S → L → Prop) [∀ s l, Decidable (ok s l)] (s : S) : List L → Option S
  | [] => some s
  | l :: rest => if ok s l then (step s l).bind fun s' => exec step ok s' rest else none

variable {step : S → L → Option S} {ok : S → L → Prop} {a b c : S}

theorem Reach.trans (first : Reach step ok a b) (second : Reach step ok b c) : Reach step ok a c := by
  induction second with
  | refl => exact first
  | next _ allowed step ih => exact ih.next allowed step

theorem Reach.mono {ok' : S → L → Prop} (weaker : ∀ s l, ok s l → ok' s l) (reach : Reach step ok a b) :
    Reach step ok' a b := by
  induction reach with
  | refl => exact .refl
  | next _ allowed step ih => exact ih.next (weaker _ _ allowed) step

/-- What holds at the start and is kept by each step that meets the condition holds along the run. -/
theorem Reach.holds {P : S → Prop} (reach : Reach step ok a b) (start : P a)
    (keep : ∀ s l s', P s → ok s l → step s l = some s' → P s') : P b := by
  induction reach with
  | refl => exact start
  | next _ allowed step ih => exact keep _ _ _ ih allowed step

theorem Reach.of_exec [∀ s l, Decidable (ok s l)] (run : exec step ok a labels = some b) : Reach step ok a b := by
  induction labels generalizing a with
  | nil =>
    cases run
    exact .refl
  | cons l rest ih =>
    unfold exec at run
    split at run
    · rename_i allowed
      obtain ⟨mid, step, later⟩ := Option.bind_eq_some_iff.mp run
      exact (Reach.next .refl allowed step).trans (ih later)
    · cases run

theorem Reach.of_get [∀ s l, Decidable (ok s l)] (runs : (exec step ok a labels).isSome) :
    Reach step ok a ((exec step ok a labels).get runs) :=
  .of_exec (Option.some_get runs).symm

end Steps
