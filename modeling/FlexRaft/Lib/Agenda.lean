import Mathlib.Data.List.Basic

/-! Work lists: an actor carries out the actions of a list one after the other, and an action may put further ones in
front of those that are left. Triples of a pre- and a postcondition for such lists, with a condition on every action
at the moment it is carried out. -/

namespace Agenda

variable {S A : Type}

/-- `t` is reached on the way from `s` through the actions `todo`, with `rest` left to do. -/
inductive Underway (act : S → A → S × List A) (runs : S → Prop) (s : S) (todo : List A) : S → List A → Prop
  | start : Underway act runs s todo s todo
  | next {t : S} {a : A} {rest : List A} (before : Underway act runs s todo t (a :: rest)) (running : runs t) :
      Underway act runs s todo (act t a).1 ((act t a).2 ++ rest)

variable {act : S → A → S × List A} {runs : S → Prop} {s t : S} {a : A} {todo rest xs ys : List A}

namespace Underway

theorem cons (running : runs s) (later : Underway act runs (act s a).1 ((act s a).2 ++ todo) t rest) :
    Underway act runs s (a :: todo) t rest := by
  induction later with
  | start => exact .next .start running
  | next _ running ih => exact .next ih running

theorem nil_eq (underway : Underway act runs s [] t rest) : t = s ∧ rest = [] := by
  induction underway with
  | start => exact ⟨rfl, rfl⟩
  | next _ _ ih => cases ih.2

theorem runs_start (underway : Underway act runs s todo t rest) (running : runs t) : runs s := by
  induction underway with
  | start => exact running
  | next _ before ih => exact ih before

/-- Either the first list is not done yet, or the second one is under way. -/
theorem append_cases (underway : Underway act runs s (xs ++ ys) t rest) :
    (∃ left, Underway act runs s xs t left ∧ rest = left ++ ys) ∨
      ∃ m, Underway act runs s xs m [] ∧ Underway act runs m ys t rest := by
  induction underway with
  | start => exact Or.inl ⟨xs, .start, rfl⟩
  | @next t a rest _ running ih =>
    rcases ih with ⟨left, within, split⟩ | ⟨m, done, within⟩
    · cases left with
      | nil =>
        rw [List.nil_append] at split
        subst split
        exact Or.inr ⟨t, within, .next .start running⟩
      | cons b left =>
        obtain ⟨rfl, rfl⟩ := List.cons_eq_cons.mp split
        exact Or.inl ⟨(act t a).2 ++ left, .next within running, (List.append_assoc _ _ _).symm⟩
    · exact Or.inr ⟨m, done, .next within running⟩

theorem singleton_cases (underway : Underway act runs s [a] t rest) :
    t = s ∧ rest = [a] ∨ runs s ∧ Underway act runs (act s a).1 (act s a).2 t rest := by
  induction underway with
  | start => exact Or.inl ⟨rfl, rfl⟩
  | @next t b rest _ running ih =>
    rcases ih with ⟨rfl, single⟩ | ⟨first, within⟩
    · obtain ⟨rfl, rfl⟩ := List.cons_eq_cons.mp single
      refine Or.inr ⟨running, ?_⟩
      rw [List.append_nil]
      exact .start
    · exact Or.inr ⟨first, .next within running⟩

end Underway

/-- From a state with `pre`, every action of `todo` that is carried out meets `ok`, and if the actor is still running
at the end it has `post`. -/
structure Triple (act : S → A → S × List A) (runs : S → Prop) (ok : S → A → Prop) (pre : S → Prop) (todo : List A)
    (post : S → Prop) : Prop where
  safe : ∀ {s t a rest}, pre s → Underway act runs s todo t (a :: rest) → runs t → ok t a
  ends : ∀ {s t}, pre s → Underway act runs s todo t [] → runs t → post t

namespace Triple

variable {ok : S → A → Prop} {pre pre' mid post post' : S → Prop}

theorem nil (weaker : ∀ s, pre s → post s) : Triple act runs ok pre [] post := by
  refine ⟨fun _ underway _ => ?_, fun holds underway _ => ?_⟩
  · cases underway.nil_eq.2
  · rw [underway.nil_eq.1]
    exact weaker _ holds

theorem weaken (triple : Triple act runs ok pre todo post) (before : ∀ s, pre' s → pre s) (after : ∀ s, post s → post' s) :
    Triple act runs ok pre' todo post' :=
  ⟨fun holds underway running => triple.safe (before _ holds) underway running,
    fun holds underway running => after _ (triple.ends (before _ holds) underway running)⟩

theorem of_forall (each : ∀ s, pre s → Triple act runs ok (· = s) todo post) : Triple act runs ok pre todo post :=
  ⟨fun holds underway running => (each _ holds).safe rfl underway running,
    fun holds underway running => (each _ holds).ends rfl underway running⟩

theorem append (first : Triple act runs ok pre xs mid) (second : Triple act runs ok mid ys post) :
    Triple act runs ok pre (xs ++ ys) post := by
  refine ⟨fun holds underway running => ?_, fun holds underway running => ?_⟩
  · rcases underway.append_cases with ⟨left, within, split⟩ | ⟨m, done, within⟩
    · cases left with
      | nil =>
        -- The first list is done and the second one has not begun.
        rw [List.nil_append] at split
        subst split
        exact second.safe (first.ends holds within running) .start running
      | cons b left =>
        obtain ⟨rfl, -⟩ := List.cons_eq_cons.mp split
        exact first.safe holds within running
    · exact second.safe (first.ends holds done (within.runs_start running)) within running
  · rcases underway.append_cases with ⟨left, within, split⟩ | ⟨m, done, within⟩
    · obtain ⟨rfl, rfl⟩ := List.append_eq_nil_iff.mp split.symm
      exact second.ends (first.ends holds within running) .start running
    · exact second.ends (first.ends holds done (within.runs_start running)) within running

theorem action (allowed : ∀ s, pre s → runs s → ok s a)
    (follow : ∀ s, pre s → runs s → Triple act runs ok (· = (act s a).1) (act s a).2 post) :
    Triple act runs ok pre [a] post := by
  refine ⟨fun holds underway running => ?_, fun holds underway running => ?_⟩
  · rcases underway.singleton_cases with ⟨rfl, single⟩ | ⟨first, within⟩
    · obtain ⟨rfl, -⟩ := List.cons_eq_cons.mp single
      exact allowed _ holds running
    · exact (follow _ holds first).safe rfl within running
  · rcases underway.singleton_cases with ⟨-, single⟩ | ⟨first, within⟩
    · cases single
    · exact (follow _ holds first).ends rfl within running

theorem action_alone (allowed : ∀ s, pre s → runs s → ok s a) (alone : ∀ s, pre s → runs s → (act s a).2 = [])
    (after : ∀ s, pre s → runs s → runs (act s a).1 → post (act s a).1) : Triple act runs ok pre [a] post := by
  refine action allowed fun s holds running => ⟨fun same underway _ => ?_, fun same underway still => ?_⟩
  · rw [alone s holds running] at underway
    cases underway.nil_eq.2
  · rw [alone s holds running] at underway
    obtain ⟨rfl, -⟩ := underway.nil_eq
    exact same ▸ after s holds running (same ▸ still)

/-- A loop over a list; the invariant may name the elements that are left. -/
theorem loop {α : Type} {I : List α → S → Prop} {f : α → List A} {items : List α}
    (body : ∀ x left, x ∈ items → Triple act runs ok (I (x :: left)) (f x) (I left)) :
    Triple act runs ok (I items) (items.flatMap f) (I []) := by
  induction items with
  | nil => exact nil fun _ holds => holds
  | cons x items ih =>
    rw [List.flatMap_cons]
    refine append (body x items List.mem_cons_self) (ih fun y left member => ?_)
    exact body y left (List.mem_cons_of_mem x member)

end Triple

end Agenda
