import Mathlib.Data.Finset.Basic
import Mathlib.Data.Finset.SDiff

/-!
# The descriptor ledger — who may release what

A program acquires resources from a kernel and gives them back. The ledger is the set
of resources that were acquired and not yet released. `settle` keeps the books over a
list of entries, and `Disciplined` says that every release in it was of something
owned at that moment.

The laws are about the two patterns programs follow: giving back at once what was just
acquired, and giving back a list of distinct resources at the end.
-/

namespace DescriptorLedger

variable {α : Type} [DecidableEq α]

/-- One line of the ledger. -/
inductive Entry (α : Type) where
  | acquire (a : α)
  | release (a : α)
deriving DecidableEq

/-- What is owned after one entry. -/
def post (owned : Finset α) : Entry α → Finset α
  | .acquire a => insert a owned
  | .release a => owned.erase a

/-- What is owned after a list of entries. -/
def settle (owned : Finset α) (entries : List (Entry α)) : Finset α := entries.foldl post owned

/-- Every release is of a resource that is owned at that moment. -/
def Disciplined (owned : Finset α) : List (Entry α) → Prop
  | [] => True
  | .acquire a :: rest => Disciplined (insert a owned) rest
  | .release a :: rest => a ∈ owned ∧ Disciplined (owned.erase a) rest

@[simp] theorem settle_cons (owned : Finset α) (e : Entry α) (rest : List (Entry α)) :
    settle owned (e :: rest) = settle (post owned e) rest := rfl

theorem settle_append (owned : Finset α) (entries rest : List (Entry α)) :
    settle owned (entries ++ rest) = settle (settle owned entries) rest := List.foldl_append

/-- A resource that was not owned, acquired and given back at once. -/
theorem settle_acquire_release {owned : Finset α} {a : α} (h : a ∉ owned) :
    settle owned [.acquire a, .release a] = owned := Finset.erase_insert h

theorem disciplined_acquire_release (owned : Finset α) (a : α) :
    Disciplined owned [.acquire a, .release a] :=
  ⟨Finset.mem_insert_self a owned, trivial⟩

/-- Distinct resources that are all owned can be released one after the other, and
    exactly they are gone afterwards. -/
theorem release_all {l : List α} (hnodup : l.Nodup) :
    ∀ owned : Finset α, (∀ a ∈ l, a ∈ owned) →
      Disciplined owned (l.map .release) ∧
        ∀ a, a ∈ settle owned (l.map .release) ↔ a ∈ owned ∧ a ∉ l := by
  induction l with
  | nil =>
      intro owned _
      exact ⟨trivial, fun a => ⟨fun h => ⟨h, List.not_mem_nil⟩, fun h => h.1⟩⟩
  | cons b rest ih =>
      intro owned howned
      obtain ⟨hb, hrest⟩ := List.nodup_cons.mp hnodup
      have hleft : ∀ a ∈ rest, a ∈ owned.erase b := by
        intro a ha
        have hne : a ≠ b := fun h => hb (h ▸ ha)
        exact Finset.mem_erase.mpr ⟨hne, howned a (List.mem_cons_of_mem b ha)⟩
      obtain ⟨hdisciplined, hsettle⟩ := ih hrest (owned.erase b) hleft
      refine ⟨⟨howned b List.mem_cons_self, hdisciplined⟩, ?_⟩
      intro a
      rw [List.map_cons, settle_cons, post, hsettle, Finset.mem_erase, List.mem_cons]
      tauto

end DescriptorLedger
