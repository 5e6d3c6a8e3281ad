import Mathlib.Logic.Function.Basic
import TradeSynth.TransitionProofs

/-!
# Tickets — numbers handed out in order, deliveries made in any

An agent draws the next number and owes a delivery under it to each of some recipients.
It makes its deliveries one at a time, whenever it likes. What a recipient sees is the
order in which deliveries are made, not the order in which numbers were drawn.

* `ordered_of_inTurn` — when each delivery is made in turn, every recipient sees strictly
  increasing numbers;
* `disordered_of_outOfTurn` — one delivery out of turn, and some recipient does not, as
  soon as everything owed has been delivered.
-/

namespace Ticket

open Transition

variable {ι ρ : Type} [DecidableEq ι]

/-- The next number, what each agent owes, and what has been delivered. -/
structure Desk (ι ρ : Type) where
  next : Nat
  due  : ι → List (ρ × Nat)
  log  : List (ρ × Nat)

inductive Event (ι ρ : Type) where
  | issue (i : ι) (recipients : List ρ)
  | deliver (i : ι)

inductive Step (s : Desk ι ρ) : Event ι ρ → Desk ι ρ → Prop where
  | issue {i : ι} {recipients : List ρ} (hidle : s.due i = []) :
      Step s (.issue i recipients)
        ⟨s.next + 1, Function.update s.due i (recipients.map (·, s.next)), s.log⟩
  | deliver {i : ι} {entry : ρ × Nat} {rest : List (ρ × Nat)}
      (hdue : s.due i = entry :: rest) :
      Step s (.deliver i) ⟨s.next, Function.update s.due i rest, s.log ++ [entry]⟩

/-- Every recipient sees strictly increasing numbers. -/
def Ordered (log : List (ρ × Nat)) : Prop :=
  log.Pairwise (fun a b => a.1 = b.1 → a.2 < b.2)

/-- Whoever is owed a delivery together with the one that is made is owed it under a
    greater number. -/
def InTurn (s : Desk ι ρ) : Event ι ρ → Prop
  | .issue .. => True
  | .deliver i => ∀ entry rest, s.due i = entry :: rest →
      (∀ other ∈ rest, other.1 = entry.1 → entry.2 < other.2) ∧
      ∀ j ≠ i, ∀ other ∈ s.due j, other.1 = entry.1 → entry.2 < other.2

-- ── In turn ──────────────────────────────────────────────────────────────────

/-- Nothing that is owed comes late: the numbers in use have been drawn, what is owed
    is greater than what the same recipient has, and the log is ordered. -/
structure Punctual (s : Desk ι ρ) : Prop where
  drawn   : ∀ entry ∈ s.log, entry.2 < s.next
  owed    : ∀ i, ∀ entry ∈ s.due i, entry.2 < s.next
  behind  : ∀ entry ∈ s.log, ∀ i, ∀ other ∈ s.due i, other.1 = entry.1 → entry.2 < other.2
  ordered : Ordered s.log

theorem Punctual.step {s s' : Desk ι ρ} {e : Event ι ρ} (h : Punctual s) (hturn : InTurn s e)
    (hstep : Step s e s') : Punctual s' := by
  cases hstep with
  | @issue i recipients hidle =>
      have hnew : ∀ j, ∀ other ∈ Function.update s.due i (recipients.map (·, s.next)) j,
          other.2 = s.next ∨ other ∈ s.due j := by
        intro j other hother
        by_cases hij : j = i
        · rw [hij, Function.update_self] at hother
          obtain ⟨r, -, rfl⟩ := List.mem_map.mp hother
          exact Or.inl rfl
        · rw [Function.update_of_ne hij] at hother
          exact Or.inr hother
      exact {
        drawn := fun entry hentry => Nat.lt_succ_of_lt (h.drawn entry hentry)
        owed := by
          intro j other hother
          show other.2 < s.next + 1
          rcases hnew j other hother with heq | hold
          · omega
          · exact Nat.lt_succ_of_lt (h.owed j other hold)
        behind := by
          intro entry hentry j other hother hsame
          rcases hnew j other hother with heq | hold
          · rw [heq]
            exact h.drawn entry hentry
          · exact h.behind entry hentry j other hold hsame
        ordered := h.ordered }
  | @deliver i entry rest hdue =>
      obtain ⟨hrest, hothers⟩ := hturn entry rest hdue
      have hentry : entry ∈ s.due i := by
        rw [hdue]
        exact List.mem_cons_self
      have hkept : ∀ j, ∀ other ∈ Function.update s.due i rest j, other ∈ s.due j ∧
          (other.1 = entry.1 → entry.2 < other.2) := by
        intro j other hother
        by_cases hij : j = i
        · subst hij
          rw [Function.update_self] at hother
          refine ⟨?_, hrest other hother⟩
          rw [hdue]
          exact List.mem_cons_of_mem _ hother
        · rw [Function.update_of_ne hij] at hother
          exact ⟨hother, hothers j hij other hother⟩
      exact {
        drawn := by
          intro made hmade
          rcases List.mem_append.mp hmade with hmade | hmade
          · exact h.drawn made hmade
          · rw [List.mem_singleton.mp hmade]
            exact h.owed i entry hentry
        owed := fun j other hother => h.owed j other (hkept j other hother).1
        behind := by
          intro made hmade j other hother hsame
          obtain ⟨hother, hlater⟩ := hkept j other hother
          rcases List.mem_append.mp hmade with hmade | hmade
          · exact h.behind made hmade j other hother hsame
          · rw [List.mem_singleton.mp hmade] at hsame ⊢
            exact hlater hsame
        ordered := by
          refine List.pairwise_append.mpr ⟨h.ordered, List.pairwise_singleton _ _, ?_⟩
          intro made hmade last hlast hsame
          rw [List.mem_singleton.mp hlast] at hsame ⊢
          exact h.behind made hmade i entry hentry hsame.symm }

/-- A run of deliveries in turn is ordered. -/
theorem ordered_of_inTurn {s s' : Desk ι ρ} (hs : Punctual s) (h : Runs Step InTurn s s') :
    Ordered s'.log :=
  (h.invariant (fun _ _ _ ht hturn hstep => ht.step hturn hstep) hs).ordered

-- ── Out of turn ──────────────────────────────────────────────────────────────

/-- Somebody is still owed a delivery under a number that is not greater than one they
    have seen. -/
def Overtaken (s : Desk ι ρ) : Prop :=
  ∃ entry ∈ s.log, ∃ i, ∃ other ∈ s.due i, other.1 = entry.1 ∧ other.2 ≤ entry.2

/-- A delivery out of turn overtakes another one. -/
theorem overtaken_of_outOfTurn {s s' : Desk ι ρ} {e : Event ι ρ} (hturn : ¬ InTurn s e)
    (hstep : Step s e s') : Overtaken s' := by
  cases hstep with
  | issue hidle => exact absurd trivial hturn
  | @deliver i entry rest hdue =>
      by_contra hnone
      refine hturn fun entry' rest' hdue' => ?_
      rw [hdue] at hdue'
      cases hdue'
      have hlast : entry ∈ s.log ++ [entry] := List.mem_append_right _ List.mem_cons_self
      constructor
      · intro other hother hsame
        by_contra hle
        refine hnone ⟨entry, hlast, i, other, ?_, hsame, Nat.le_of_not_lt hle⟩
        show other ∈ Function.update s.due i rest i
        rw [Function.update_self]
        exact hother
      · intro j hij other hother hsame
        by_contra hle
        refine hnone ⟨entry, hlast, j, other, ?_, hsame, Nat.le_of_not_lt hle⟩
        show other ∈ Function.update s.due i rest j
        rw [Function.update_of_ne hij]
        exact hother

/-- What has been overtaken stays so until it is delivered, and then the log is not
    ordered; that stays. -/
theorem disorder_step {s s' : Desk ι ρ} {e : Event ι ρ}
    (h : ¬ Ordered s.log ∨ Overtaken s) (hstep : Step s e s') :
    ¬ Ordered s'.log ∨ Overtaken s' := by
  cases hstep with
  | @issue i recipients hidle =>
      rcases h with hlog | ⟨entry, hentry, j, other, hother, hsame, hle⟩
      · exact Or.inl hlog
      · refine Or.inr ⟨entry, hentry, j, other, ?_, hsame, hle⟩
        have hij : j ≠ i := by
          rintro rfl
          rw [hidle] at hother
          cases hother
        show other ∈ Function.update s.due i _ j
        rw [Function.update_of_ne hij]
        exact hother
  | @deliver i entry rest hdue =>
      rcases h with hlog | ⟨seen, hseen, j, other, hother, hsame, hle⟩
      · exact Or.inl fun hordered => hlog (List.pairwise_append.mp hordered).1
      by_cases hmade : j = i ∧ other = entry
      · left
        intro hordered
        have hlt := (List.pairwise_append.mp hordered).2.2 seen hseen entry
          List.mem_cons_self (hmade.2 ▸ hsame.symm)
        rw [hmade.2] at hle
        omega
      · refine Or.inr ⟨seen, List.mem_append_left _ hseen, j, other, ?_, hsame, hle⟩
        show other ∈ Function.update s.due i rest j
        by_cases hij : j = i
        · subst hij
          rw [Function.update_self]
          rw [hdue] at hother
          exact (List.mem_cons.mp hother).resolve_left fun heq => hmade ⟨rfl, heq⟩
        · rw [Function.update_of_ne hij]
          exact hother

/-- After a delivery out of turn no run that delivers everything is ordered. -/
theorem disordered_of_outOfTurn {s s' s'' : Desk ι ρ} {e : Event ι ρ}
    (hturn : ¬ InTurn s e) (hstep : Step s e s') (h : Runs Step anyStep s' s'')
    (hquiet : ∀ i, s''.due i = []) : ¬ Ordered s''.log := by
  have hdisorder : ¬ Ordered s''.log ∨ Overtaken s'' :=
    h.invariant (I := fun s : Desk ι ρ => ¬ Ordered s.log ∨ Overtaken s)
      (fun _ _ _ hs _ hnext => disorder_step hs hnext)
      (Or.inr (overtaken_of_outOfTurn hturn hstep))
  rcases hdisorder with hlog | ⟨-, -, i, other, hother, -⟩
  · exact hlog
  · rw [hquiet i] at hother
    cases hother

end Ticket
