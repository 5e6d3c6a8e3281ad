import Mathlib.Computability.Language

/-!
# Prefix codes — streams of self-delimiting words

A prefix code is a language of non-empty words none of which begins another. On a stream
of such words the boundaries are determined by the symbols alone: behind a whole number
of words, what follows is a whole number of words or the stream is not one
(`suffix_mem`). A word that was cut short therefore spoils the stream at the very place
where it was cut (`torn_mem`).
-/

namespace PrefixCode

open Language

variable {α : Type}

/-- Non-empty words, none of which begins another. -/
structure IsPrefixCode (C : Language α) : Prop where
  nonempty : [] ∉ C
  free     : ∀ u ∈ C, ∀ v ∈ C, u <+: v → u = v

/-- One more word on a stream of words. -/
theorem append_mem_kstar {C : Language α} {x w : List α} (hx : x ∈ KStar.kstar C)
    (hw : w ∈ C) : x ++ w ∈ KStar.kstar C := by
  obtain ⟨L, rfl, hL⟩ := mem_kstar.mp hx
  refine mem_kstar.mpr ⟨L ++ [w], by simp, ?_⟩
  intro y hy
  rcases List.mem_append.mp hy with hy | hy
  · exact hL y hy
  · rw [List.mem_singleton.mp hy]
    exact hw

namespace IsPrefixCode

variable {C : Language α}

/-- The first word of a stream is determined. -/
theorem head_eq (h : IsPrefixCode C) {u v x y : List α} (hu : u ∈ C) (hv : v ∈ C)
    (heq : u ++ x = v ++ y) : u = v := by
  have hpu : u <+: v ++ y := ⟨x, heq⟩
  have hpv : v <+: v ++ y := List.prefix_append v y
  rcases List.prefix_or_prefix_of_prefix hpu hpv with hpre | hpre
  · exact h.free u hu v hv hpre
  · exact (h.free v hv u hu hpre).symm

/-- A stream that begins with a word goes on as a stream. -/
theorem tail_mem (h : IsPrefixCode C) {c y : List α} (hc : c ∈ C)
    (hy : c ++ y ∈ KStar.kstar C) : y ∈ KStar.kstar C := by
  obtain ⟨L, heq, hL⟩ := mem_kstar.mp hy
  cases L with
  | nil =>
      have hnil : c = [] := (List.append_eq_nil_iff.mp heq).1
      rw [hnil] at hc
      exact absurd hc h.nonempty
  | cons d L =>
      rw [List.flatten_cons] at heq
      have hcd := h.head_eq hc (hL d List.mem_cons_self) heq
      rw [hcd] at heq
      rw [List.append_cancel_left heq]
      exact join_mem_kstar fun e he => hL e (List.mem_cons_of_mem d he)

/-- Behind a whole number of words a stream goes on as a stream. -/
theorem suffix_mem (h : IsPrefixCode C) {x y : List α} (hx : x ∈ KStar.kstar C)
    (hxy : x ++ y ∈ KStar.kstar C) : y ∈ KStar.kstar C := by
  obtain ⟨L, rfl, hL⟩ := mem_kstar.mp hx
  induction L with
  | nil => exact hxy
  | cons c L ih =>
      rw [List.flatten_cons, List.append_assoc] at hxy
      have hL' : ∀ d ∈ L, d ∈ C := fun d hd => hL d (List.mem_cons_of_mem c hd)
      exact ih hL' (join_mem_kstar hL') (h.tail_mem (hL c List.mem_cons_self) hxy)

/-- A part of a word that is a stream by itself is nothing or the whole word. -/
theorem part_mem (h : IsPrefixCode C) {w p : List α} (hw : w ∈ C) (hp : p <+: w)
    (hmem : p ∈ KStar.kstar C) : p = [] ∨ p = w := by
  obtain ⟨L, rfl, hL⟩ := mem_kstar.mp hmem
  cases L with
  | nil => exact Or.inl rfl
  | cons c L =>
      have hc := hL c List.mem_cons_self
      have hcw : c = w := by
        refine h.free c hc w hw (List.IsPrefix.trans ?_ hp)
        exact List.prefix_append c L.flatten
      refine Or.inr (hp.eq_of_length_le ?_)
      rw [List.flatten_cons, List.length_append, hcw]
      exact Nat.le_add_right _ _

/-- **A torn word.** Behind a whole number of words, a part of a word leaves a whole
    number of words only if it is nothing or the whole word. -/
theorem torn_mem (h : IsPrefixCode C) {x w p : List α} (hx : x ∈ KStar.kstar C)
    (hw : w ∈ C) (hp : p <+: w) (hmem : x ++ p ∈ KStar.kstar C) : p = [] ∨ p = w :=
  h.part_mem hw hp (h.suffix_mem hx hmem)

end IsPrefixCode

end PrefixCode
