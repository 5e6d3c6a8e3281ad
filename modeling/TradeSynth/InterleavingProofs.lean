import Mathlib.Data.List.Basic
import Mathlib.Logic.Function.Basic

/-!
# Interleaving — several agents, one trail

Agents take on work piece by piece and do it piece by piece, in any order among
themselves. All that is done goes into one trail, with the agent beside it. The books
are kept when, for each agent, what it has done and what it still owes make up what it
has taken on, in order.

* `Kept.promise`, `Kept.deliver` — the two things that can happen keep the books;
* `Kept.begun`, `Kept.complete` — what an agent has done is the beginning of what it has
  taken on, and all of it as soon as the agent owes nothing.
-/

namespace Interleaving

variable {ι α : Type} [DecidableEq ι]

/-- What one agent has done, in order. -/
def doneBy (t : ι) (trail : List (ι × α)) : List α :=
  (trail.filter (fun entry => entry.1 = t)).map Prod.snd

/-- For each agent, what is done and what is owed make up what is due. -/
def Kept (due owed : ι → List α) (trail : List (ι × α)) : Prop :=
  ∀ t, doneBy t trail ++ owed t = due t

theorem doneBy_append (t : ι) (trail more : List (ι × α)) :
    doneBy t (trail ++ more) = doneBy t trail ++ doneBy t more := by
  rw [doneBy, List.filter_append, List.map_append]
  rfl

theorem doneBy_own (t : ι) (l : List α) : doneBy t (l.map (Prod.mk t)) = l := by
  induction l with
  | nil => rfl
  | cons a rest ih =>
      rw [doneBy, List.map_cons, List.filter_cons_of_pos (by simp), List.map_cons]
      exact congrArg (a :: ·) ih

theorem doneBy_other {t u : ι} (h : u ≠ t) (l : List α) :
    doneBy t (l.map (Prod.mk u)) = [] := by
  induction l with
  | nil => rfl
  | cons a rest ih =>
      rw [doneBy, List.map_cons, List.filter_cons_of_neg (by simpa using h)]
      exact ih

variable {due owed : ι → List α} {trail : List (ι × α)}

/-- An agent that takes something on owes it. -/
theorem Kept.promise (h : Kept due owed trail) (t : ι) (l : List α) :
    Kept (Function.update due t (due t ++ l)) (Function.update owed t (owed t ++ l)) trail := by
  intro u
  by_cases hu : u = t
  · subst hu
    rw [Function.update_self, Function.update_self, ← List.append_assoc, h u]
  · rw [Function.update_of_ne hu, Function.update_of_ne hu, h u]

/-- An agent that does the first of what it owes owes the rest. -/
theorem Kept.deliver (h : Kept due owed trail) {t : ι} {l rest : List α}
    (ht : owed t = l ++ rest) :
    Kept due (Function.update owed t rest) (trail ++ l.map (Prod.mk t)) := by
  intro u
  by_cases hu : u = t
  · subst hu
    rw [Function.update_self, doneBy_append, doneBy_own, List.append_assoc, ← ht, h u]
  · have hne : t ≠ u := fun heq => hu heq.symm
    rw [Function.update_of_ne hu, doneBy_append, doneBy_other hne, List.append_nil, h u]

/-- What is done is the beginning of what is due. -/
theorem Kept.begun (h : Kept due owed trail) (t : ι) : doneBy t trail <+: due t :=
  ⟨owed t, h t⟩

/-- What is done is all that is due when nothing is owed. -/
theorem Kept.complete (h : Kept due owed trail) {t : ι} (ht : owed t = []) :
    doneBy t trail = due t := by
  rw [← h t, ht, List.append_nil]

end Interleaving
