import Mathlib.Data.List.Basic

/-!
# Locked output — records that are written piece by piece

Writers put records on a stream in several pieces, each in a call of its own, and hold a
lock from the first piece to the last. What the stream shows is then a list of whole
records, and behind it the first pieces of the record in the hands of the writer that
holds the lock.

* `shown_begin`, `shown_emit`, `shown_finish` — taking the lock shows nothing, a piece is
  shown at the end, and a record whose last piece is out joins the whole ones.
-/

namespace LockedOutput

variable {ρ α : Type}

/-- All pieces of a record. -/
def whole (render : ρ → List (List α)) (r : ρ) : List α := (render r).flatten

/-- The whole records, and the pieces of the record in hand that are out. -/
def shown (render : ρ → List (List α)) (done : List ρ) : Option (ρ × Nat) → List α
  | none => done.flatMap (whole render)
  | some (r, k) => done.flatMap (whole render) ++ ((render r).take k).flatten

variable {render : ρ → List (List α)}

/-- Nothing is shown of a record that has just been taken in hand. -/
theorem shown_begin (done : List ρ) (r : ρ) :
    shown render done (some (r, 0)) = shown render done none := by
  simp only [shown, List.take_zero, List.flatten_nil, List.append_nil]

/-- The first pieces, and one more. -/
theorem flatten_take_succ {pieces : List (List α)} {k : Nat} {piece : List α}
    (h : pieces[k]? = some piece) :
    (pieces.take (k + 1)).flatten = (pieces.take k).flatten ++ piece := by
  have hlast : (some piece).toList.flatten = piece := List.append_nil piece
  rw [List.take_add_one, h, List.flatten_append, hlast]

/-- The next piece is shown at the end. -/
theorem shown_emit (done : List ρ) {r : ρ} {k : Nat} {piece : List α}
    (h : (render r)[k]? = some piece) :
    shown render done (some (r, k + 1)) = shown render done (some (r, k)) ++ piece := by
  rw [shown, shown, flatten_take_succ h, List.append_assoc]

/-- A record whose pieces are all out is a whole one. -/
theorem shown_finish (done : List ρ) {r : ρ} {k : Nat} (h : (render r).length ≤ k) :
    shown render (done ++ [r]) none = shown render done (some (r, k)) := by
  simp only [shown, List.take_of_length_le h, List.flatMap_append, List.flatMap_singleton]
  rfl

end LockedOutput
