import Mathlib.Data.List.DropRight
import TradeSynth.TradeStringsProofs

/-!
# Trimming — two loops from the ends of a string towards each other

`trim_whitespace` moves a pointer from the front of the string to the first byte that is
no whitespace, another one from the back to the last, and writes the terminator behind
that. When nothing is left between the two, the second loop is not entered.

The run is the same in a block that holds the string and its terminator and nothing else
as anywhere in a larger one, so all reads and writes stay within the two
(`trim_whitespace_correct`).
-/

namespace TradeTrim

open CheckedMemory TradeTypes

variable {n : Nat}

-- ── The source function ──────────────────────────────────────────────────────

/-- The bytes for which `isspace` holds in the C locale. -/
def isSpace (c : UInt8) : Bool := c == 32 || (decide (9 ≤ c) && decide (c ≤ 13))

/-- The loop that moves a pointer from `str` to the first byte with a property; the length
    of the search is one more than the block has cells behind the pointer. -/
def seek (p : UInt8 → Bool) (buffer : Block UInt8 n) (str : Nat) : Checked Nat := do
  let found ← buffer.findFrom p str (n + 1 - str)
  match found with
  | some k => pure k
  | none => .error ⟨str⟩

/-- The loop that moves `end` down to `str`, over whitespace; it stands `k` bytes behind
    `str`. -/
def trimEnd (buffer : Block UInt8 n) (str : Nat) : Nat → Checked Nat
  | 0 => .ok str
  | k + 1 => do
      let c ← buffer.read (str + (k + 1))
      if isSpace c then trimEnd buffer str k else pure (str + (k + 1))

/-- The returned pointer is an offset into the buffer. -/
def trimWhitespace (buffer : Block UInt8 n) (str : Nat) : Checked (Nat × Block UInt8 n) := do
  let str ← seek (fun c => !isSpace c) buffer str
  let c ← buffer.read str
  if c = 0 then pure (str, buffer)
  else do
    let terminator ← seek (· == 0) buffer str
    let last ← trimEnd buffer str (terminator - str - 1)
    let buffer ← buffer.write (last + 1) 0
    pure (str, buffer)

-- ── The loops ────────────────────────────────────────────────────────────────

theorem seek_skip {p : UInt8 → Bool} {buffer : Block UInt8 n} {front skip rest : List UInt8}
    {c : UInt8} (hcells : buffer.cells = front ++ (skip ++ c :: rest))
    (hskip : ∀ a ∈ skip, p a = false) (hc : p c = true) :
    seek p buffer front.length = .ok (front.length + skip.length) := by
  have hlen := congrArg List.length hcells
  rw [buffer.size, List.length_append, List.length_append, List.length_cons] at hlen
  rw [seek, Block.findFrom_skip hcells hskip hc (by omega)]
  rfl

/-- The loop from the back stops at the last byte that is no whitespace, or at the first
    byte of the string. -/
theorem trimEnd_eq {buffer : Block UInt8 n} {str m k : Nat} (hmk : m ≤ k)
    (hspace : ∀ j, m < j → j ≤ k → ∃ c, buffer.cells[str + j]? = some c ∧ isSpace c = true)
    (hstop : m = 0 ∨ ∃ c, buffer.cells[str + m]? = some c ∧ isSpace c = false) :
    trimEnd buffer str k = .ok (str + m) := by
  induction k with
  | zero =>
      rw [trimEnd, Nat.le_zero.mp hmk]
      rfl
  | succ k ih =>
      by_cases hm : m = k + 1
      · obtain ⟨c, hc, hno⟩ := hstop.resolve_left (by omega)
        rw [hm] at hc
        rw [trimEnd, Block.read_eq_ok.mpr hc, ok_bind, if_neg (by simp [hno]), hm]
        rfl
      · obtain ⟨c, hc, hyes⟩ := hspace (k + 1) (by omega) (Nat.le_refl _)
        rw [trimEnd, Block.read_eq_ok.mpr hc, ok_bind, if_pos hyes]
        exact ih (by omega) (fun j hj hle => hspace j hj (by omega))

-- ── A run on a string in pieces ──────────────────────────────────────────────

/-- `core` is `s` without the maximal runs of whitespace at its ends, which are `lead` and
    `trail`; when nothing is left, all of it counts as leading. -/
structure Pieces (s lead core trail : List UInt8) : Prop where
  split    : s = lead ++ (core ++ trail)
  leading  : ∀ c ∈ lead, isSpace c = true
  trailing : ∀ c ∈ trail, isSpace c = true
  begins   : ∀ c, core.head? = some c → isSpace c = false
  ends     : ∀ c, core.getLast? = some c → isSpace c = false
  empty    : core = [] → trail = []

/-- Every string comes apart in this way. -/
theorem exists_pieces (s : List UInt8) : ∃ lead core trail, Pieces s lead core trail := by
  refine ⟨s.takeWhile isSpace, (s.dropWhile isSpace).rdropWhile isSpace,
    (s.dropWhile isSpace).rtakeWhile isSpace, ?_⟩
  have hbegin : ∀ c, (s.dropWhile isSpace).head? = some c → isSpace c = false := by
    intro c hc
    have hnot := List.head?_dropWhile_not isSpace s
    rw [hc] at hnot
    exact hnot
  exact {
    split := by rw [List.rdropWhile_append_rtakeWhile, List.takeWhile_append_dropWhile]
    leading := fun c hc => List.mem_takeWhile_imp hc
    trailing := fun c hc => List.mem_rtakeWhile_imp hc
    begins := by
      intro c hc
      obtain ⟨rest, hrest⟩ := List.rdropWhile_prefix isSpace (l := s.dropWhile isSpace)
      apply hbegin
      rw [← hrest, List.head?_append, hc]
      rfl
    ends := by
      intro c hc
      have hne : (s.dropWhile isSpace).rdropWhile isSpace ≠ [] := by
        intro hnil
        rw [hnil] at hc
        cases hc
      have hlast := List.rdropWhile_last_not isSpace (s.dropWhile isSpace) hne
      rw [List.getLast?_eq_some_getLast hne] at hc
      rw [Option.some.inj hc] at hlast
      exact Bool.eq_false_iff.mpr hlast
    empty := by
      intro hcore
      have hall := List.rdropWhile_eq_nil_iff.mp hcore
      cases hrest : s.dropWhile isSpace with
      | nil => rfl
      | cons c rest =>
          rw [hrest] at hall hbegin
          have hno := hbegin c rfl
          rw [hall c List.mem_cons_self] at hno
          cases hno }

/-- From the last byte of the string the loop comes back to the last byte of the core. -/
theorem trimEnd_core {buffer : Block UInt8 n} {front mid trail rest : List UInt8} {c : UInt8}
    (hcells : buffer.cells = front ++ (c :: mid ++ (trail ++ rest)))
    (htrail : ∀ d ∈ trail, isSpace d = true)
    (hends : ∀ d, (c :: mid).getLast? = some d → isSpace d = false) :
    trimEnd buffer front.length (mid.length + trail.length) =
      .ok (front.length + mid.length) := by
  have hcell : ∀ j, buffer.cells[front.length + j]? = (c :: mid ++ (trail ++ rest))[j]? := by
    intro j
    rw [hcells, List.getElem?_append_right (by omega), Nat.add_sub_cancel_left]
  refine trimEnd_eq (by omega) ?_ (Or.inr ?_)
  · intro j hj hle
    have hin : j - (mid.length + 1) < trail.length := by omega
    refine ⟨trail[j - (mid.length + 1)], ?_, htrail _ (List.getElem_mem hin)⟩
    rw [hcell, List.getElem?_append_right (by rw [List.length_cons]; omega), List.length_cons,
      List.getElem?_append_left hin, List.getElem?_eq_getElem hin]
  · have hlast : mid.length < (c :: mid).length := Nat.lt_succ_self _
    refine ⟨(c :: mid)[mid.length], ?_, hends _ ?_⟩
    · rw [hcell, List.getElem?_append_left hlast, List.getElem?_eq_getElem hlast]
    · rw [List.getLast?_eq_getElem?, List.length_cons, Nat.add_sub_cancel,
        List.getElem?_eq_getElem hlast]

/-- The run: the pointer stops behind the leading whitespace, and the byte behind the core
    becomes the terminator, where it is not the terminator already. -/
theorem trimWhitespace_run {buffer : Block UInt8 n} {front back s lead core trail : List UInt8}
    (hcells : buffer.cells = front ++ (s ++ 0 :: back)) (hzero : 0 ∉ s)
    (h : Pieces s lead core trail) :
    ∃ out, trimWhitespace buffer front.length = .ok (front.length + lead.length, out) ∧
      out.cells = front ++ (lead ++ (core ++ 0 :: (trail ++ 0 :: back).tail)) := by
  have hlead : ∀ c ∈ lead, (!isSpace c) = false := by
    intro c hc
    rw [h.leading c hc]
    rfl
  cases core with
  | nil =>
      have hall : buffer.cells = front ++ (lead ++ 0 :: back) := by
        rw [hcells, h.split, h.empty rfl, List.append_nil, List.append_nil]
      refine ⟨buffer, ?_, ?_⟩
      · rw [trimWhitespace, seek_skip hall hlead rfl, ok_bind, Block.read_skip hall, ok_bind,
          if_pos rfl]
        rfl
      · rw [hall, h.empty rfl]
        rfl
  | cons c mid =>
      have hfirst : buffer.cells = front ++ (lead ++ c :: (mid ++ (trail ++ 0 :: back))) := by
        rw [hcells, h.split]
        simp only [List.append_assoc, List.cons_append]
      have hwhole : buffer.cells = (front ++ lead) ++ ((c :: mid ++ trail) ++ 0 :: back) := by
        rw [hfirst]
        simp only [List.append_assoc, List.cons_append]
      have hc : c ≠ 0 := by
        rintro rfl
        exact hzero (by rw [h.split]; simp)
      have hnonzero : ∀ d ∈ c :: mid ++ trail, (d == 0) = false := by
        intro d hd
        rw [beq_eq_false_iff_ne]
        rintro rfl
        exact hzero (by rw [h.split]; exact List.mem_append_right lead hd)
      obtain ⟨d, hd⟩ : ∃ d, trail ++ 0 :: back = d :: (trail ++ 0 :: back).tail := by
        cases trail with
        | nil => exact ⟨0, rfl⟩
        | cons d rest => exact ⟨d, rfl⟩
      have hbehind : buffer.cells =
          (front ++ lead) ++ (c :: mid ++ d :: (trail ++ 0 :: back).tail) := by
        rw [hwhole, ← hd, List.append_assoc (c :: mid)]
      obtain ⟨out, hwrite, hout⟩ := Block.write_skip hbehind 0
      have hstop := seek_skip hwhole hnonzero rfl
      have hback : trimEnd buffer (front ++ lead).length (mid.length + trail.length) =
          .ok ((front ++ lead).length + mid.length) :=
        trimEnd_core (by rw [hbehind, ← hd]) h.trailing h.ends
      have hdistance : (front ++ lead).length + (c :: mid ++ trail).length
          - (front ++ lead).length - 1 = mid.length + trail.length := by
        simp only [List.length_append, List.length_cons]
        omega
      refine ⟨out, ?_, ?_⟩
      · rw [trimWhitespace, seek_skip hfirst hlead (by rw [h.begins c rfl]; rfl), ok_bind,
          Block.read_skip hfirst, ok_bind, if_neg hc, ← List.length_append, hstop, ok_bind,
          hdistance, hback, ok_bind]
        rw [List.length_cons] at hwrite
        rw [Nat.add_assoc, hwrite]
        rfl
      · rw [hout]
        simp only [List.append_assoc]

/-- The core of a string is its own core. -/
theorem Pieces.self {s lead core trail : List UInt8} (h : Pieces s lead core trail) :
    Pieces core [] core [] where
  split := by rw [List.nil_append, List.append_nil]
  leading _ hc := absurd hc List.not_mem_nil
  trailing _ hc := absurd hc List.not_mem_nil
  begins := h.begins
  ends := h.ends
  empty _ := rfl

theorem cString_append {core rest : List UInt8} (h : 0 ∉ core) :
    cString (core ++ 0 :: rest) = core := by
  have hcore : ∀ c ∈ core, decide (c ≠ 0) = true := by
    intro c hc
    rw [decide_eq_true_iff]
    rintro rfl
    exact h hc
  rw [cString, List.takeWhile_append_of_pos hcore]
  simp

/-- **Trimming.** Whatever the string and whatever surrounds it: the run is the one on the
    string and its terminator alone, and leaves the surroundings as they were. At the
    returned pointer stands the core of the string, and trimming it again returns the same
    pointer and changes nothing. -/
theorem trim_whitespace_correct {buffer : Block UInt8 n} {front s back : List UInt8}
    (hcells : buffer.cells = front ++ (s ++ 0 :: back)) (hzero : 0 ∉ s) :
    ∃ (p : Nat) (alone : Block UInt8 (s ++ [0]).length) (out : Block UInt8 n),
      trimWhitespace (Block.ofList (s ++ [0])) 0 = .ok (p, alone) ∧
      trimWhitespace buffer front.length = .ok (front.length + p, out) ∧
      out.cells = front ++ (alone.cells ++ back) ∧
      (∃ lead trail, Pieces s lead (cString (out.cells.drop (front.length + p))) trail) ∧
      trimWhitespace out (front.length + p) = .ok (front.length + p, out) := by
  obtain ⟨lead, core, trail, h⟩ := exists_pieces s
  obtain ⟨alone, halone, halone'⟩ := trimWhitespace_run
    (show (Block.ofList (s ++ [0])).cells = [] ++ (s ++ 0 :: []) from rfl) hzero h
  obtain ⟨out, hout, hout'⟩ := trimWhitespace_run hcells hzero h
  have hcore : 0 ∉ core := by
    intro hmem
    apply hzero
    rw [h.split]
    exact List.mem_append_right lead (List.mem_append_left trail hmem)
  have hrest : (trail ++ 0 :: back).tail = (trail ++ [0]).tail ++ back := by
    cases trail with
    | nil => rfl
    | cons d rest => simp
  have hbegin : out.cells = (front ++ lead) ++ (core ++ 0 :: (trail ++ 0 :: back).tail) := by
    rw [hout', List.append_assoc]
  have hstring : out.cells.drop (front.length + lead.length) =
      core ++ 0 :: (trail ++ 0 :: back).tail := by
    rw [hbegin, ← List.length_append, List.drop_left]
  obtain ⟨again, hagain, hagain'⟩ := trimWhitespace_run hbegin hcore h.self
  have hsame : again = out := by
    apply Block.ext
    rw [hagain', hbegin]
    rfl
  rw [List.length_nil, Nat.zero_add] at halone
  rw [hsame, List.length_append, List.length_nil, Nat.add_zero] at hagain
  refine ⟨lead.length, alone, out, halone, hout, ?_, ⟨lead, trail, ?_⟩, hagain⟩
  · rw [hout', halone', hrest]
    simp only [List.nil_append, List.append_assoc, List.cons_append]
  · rw [hstring, cString_append hcore]
    exact h

/-- The word `a` between two blanks. -/
theorem trim_whitespace_correct_word :
    ∃ (p : Nat) (alone : Block UInt8 4) (out : Block UInt8 4),
      trimWhitespace (Block.ofList [32, 97, 32, 0]) 0 = .ok (p, alone) ∧
      trimWhitespace (Block.ofList [32, 97, 32, 0]) 0 = .ok (0 + p, out) ∧
      out.cells = [] ++ (alone.cells ++ []) ∧
      (∃ lead trail, Pieces [32, 97, 32] lead (cString (out.cells.drop (0 + p))) trail) ∧
      trimWhitespace out (0 + p) = .ok (0 + p, out) :=
  trim_whitespace_correct
    (show (Block.ofList [32, 97, 32, 0]).cells = [] ++ ([32, 97, 32] ++ 0 :: []) from rfl)
    (by decide)

end TradeTrim
