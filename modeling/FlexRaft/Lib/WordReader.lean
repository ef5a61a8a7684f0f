import Mathlib.Data.List.Basic

namespace WordReader

variable {σ α β : Type}

/-- `read` takes `word` off the front of its input and goes on as `next`. A part of the word will not do. -/
structure Consumes (read : List σ → Option β) (word : List σ) (next : List σ → Option β) : Prop where
  reads : ∀ rest, read (word ++ rest) = next rest
  refuses : ∀ short missing, short ++ missing = word → missing ≠ [] → read short = none

/-- `read` makes `value` of `word`, whatever follows it. -/
def Takes (read : List σ → Option (α × List σ)) (word : List σ) (value : α) : Prop :=
  Consumes read word fun rest => some (value, rest)

/-- `read` makes `value` of `word` and refuses every proper beginning of it. -/
structure Recovers (read : List σ → Option α) (word : List σ) (value : α) : Prop where
  reads : read word = some value
  refuses : ∀ short, short <+: word → short ≠ word → read short = none

namespace Consumes

variable {read next : List σ → Option β} {word word' : List σ} {value : α}

theorem nil (read : List σ → Option β) : Consumes read [] read := by
  refine ⟨fun _ => rfl, fun short missing split left => ?_⟩
  exact absurd (List.append_eq_nil_iff.mp split).2 left

theorem of_bind {first : List σ → Option (α × List σ)} {later : α × List σ → Option β}
    (front : Takes first word value) (back : Consumes (fun rest => later (value, rest)) word' next) :
    Consumes (fun input => first input >>= later) (word ++ word') next := by
  constructor
  · intro rest
    rw [List.append_assoc, front.reads]
    exact back.reads rest
  · intro short missing split left
    -- The input ends inside the first word, or behind it.
    rcases List.append_eq_append_iff.mp split with ⟨between, whole, tail⟩ | ⟨between, whole, tail⟩
    · by_cases complete : between = []
      · subst complete
        have here := front.reads []
        rw [whole, List.append_nil, List.append_nil] at here
        have stuck := back.refuses [] missing (by simpa using tail) left
        rw [here]
        exact stuck
      · rw [front.refuses short between whole.symm complete]
        rfl
    · have stuck := back.refuses between missing tail.symm left
      rw [whole, front.reads]
      exact stuck

theorem of_some {result : Option α} {later : α → List σ → Option β} (known : result = some value)
    (back : Consumes (later value) word next) : Consumes (fun input => result >>= fun a => later a input) word next := by
  rw [known]
  exact back

theorem map {last : List σ → Option α} (consumes : Consumes last word fun _ => some value) (f : α → β) :
    Consumes (fun input => last input >>= fun a => some (f a)) word fun _ => some (f value) := by
  constructor
  · intro rest
    rw [consumes.reads]
    rfl
  · intro short missing split left
    rw [consumes.refuses short missing split left]
    rfl

theorem recovers {value : β} (consumes : Consumes read word next) (done : next [] = some value) :
    Recovers read word value := by
  constructor
  · have whole := consumes.reads []
    rwa [List.append_nil, done] at whole
  · rintro short ⟨missing, split⟩ shorter
    refine consumes.refuses short missing split fun none => shorter ?_
    rw [← split, none, List.append_nil]

end Consumes

end WordReader
