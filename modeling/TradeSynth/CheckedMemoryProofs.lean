import Mathlib.Data.List.Basic
import Mathlib.Data.List.TakeDrop

/-!
# Checked memory — every access lands inside its block, or faults

A `Block α n` is an allocation of exactly `n` cells; the size is a field, so a block
of the wrong length cannot be built. Every operation goes through single-cell reads
and writes, and an access at an index `≥ n` yields the distinguished outcome
`Fault`. Code over blocks therefore answers two questions at once: what it computes,
and whether it stays inside.

The operations are the loops of C programs: copy a range, overwrite a range, move a
range, fold over a range, search a range. Each has a law for the range that fits, with
the result as a list. The loops that run to an unchecked length have a second one, for
the fault at the first cell past the end.
-/

namespace CheckedMemory

variable {α β : Type} {n : Nat}

/-- An access outside its block, with the index that was asked for. -/
structure Fault where
  index : Nat
deriving DecidableEq, Repr

/-- The outcome of code that touches memory: a result, or the first fault. -/
abbrev Checked (α : Type) := Except Fault α

@[simp] theorem ok_bind (a : α) (f : α → Checked β) :
    ((Except.ok a : Checked α) >>= f) = f a := rfl

@[simp] theorem error_bind (e : Fault) (f : α → Checked β) :
    ((Except.error e : Checked α) >>= f) = .error e := rfl

@[simp] theorem pure_eq_ok (a : α) : (pure a : Checked α) = .ok a := rfl

/-- A bind succeeds exactly when both of its parts do. -/
theorem bind_eq_ok {x : Checked α} {f : α → Checked β} {b : β} :
    (x >>= f) = .ok b ↔ ∃ a, x = .ok a ∧ f a = .ok b := by
  cases x with
  | error e => simp
  | ok a => simp

/-- Overwriting an entry by one with the same image leaves the images as they were. -/
theorem map_set_same {f : α → β} {l : List α} {i : Nat} {old a : α} (h : l[i]? = some old)
    (hf : f a = f old) : (l.set i a).map f = l.map f := by
  obtain ⟨hlt, hval⟩ := List.getElem?_eq_some_iff.mp h
  calc (l.set i a).map f
      = (l.map f).set i (f old) := by rw [List.map_set, hf]
    _ = (l.set i old).map f := List.map_set.symm
    _ = l.map f := by rw [← hval, List.set_getElem_self]

/-- What holds of every entry, and of a new one, holds once an entry has been overwritten
    by the new one. -/
theorem forall_mem_set {P : α → Prop} {l : List α} {i : Nat} {a : α} (h : ∀ c ∈ l, P c)
    (ha : P a) : ∀ c ∈ l.set i a, P c := by
  intro c hc
  rcases List.mem_or_eq_of_mem_set hc with hmem | rfl
  · exact h c hmem
  · exact ha

/-- An allocation of exactly `n` cells. -/
structure Block (α : Type) (n : Nat) where
  cells : List α
  size : cells.length = n
deriving DecidableEq, Repr

namespace Block

theorem ext {b b' : Block α n} (h : b.cells = b'.cells) : b = b' := by
  cases b
  cases b'
  cases h
  rfl

/-- A block holding one value in every cell, as `calloc` leaves it. -/
def fill (n : Nat) (a : α) : Block α n := ⟨List.replicate n a, List.length_replicate⟩

/-- The block whose cells are the elements of a list. -/
def ofList (l : List α) : Block α l.length := ⟨l, rfl⟩

@[simp] theorem cells_ofList (l : List α) : (ofList l).cells = l := rfl

/-- Read one cell. -/
def read (b : Block α n) (i : Nat) : Checked α :=
  match b.cells[i]? with
  | some a => .ok a
  | none => .error ⟨i⟩

/-- Write one cell. -/
def write (b : Block α n) (i : Nat) (a : α) : Checked (Block α n) :=
  if i < n then .ok ⟨b.cells.set i a, by rw [List.length_set, b.size]⟩ else .error ⟨i⟩

/-- Copy `len` cells out, front to back. -/
def readRange (b : Block α n) (off : Nat) : Nat → Checked (List α)
  | 0 => .ok []
  | len + 1 => do
      let a ← b.read off
      let rest ← b.readRange (off + 1) len
      pure (a :: rest)

/-- Copy a list in, front to back. -/
def writeRange (b : Block α n) (off : Nat) : List α → Checked (Block α n)
  | [] => .ok b
  | a :: rest => do
      let b' ← b.write off a
      b'.writeRange (off + 1) rest

/-- The C `memmove`: the source range is read in full before the first write. -/
def moveRange (b : Block α n) (dst src len : Nat) : Checked (Block α n) := do
  let moved ← b.readRange src len
  b.writeRange dst moved

/-- The loop `for (i = off; i < off + len; i++) acc = f(i, acc, b[i])`. -/
def foldRange (f : Nat → β → α → β) (b : Block α n) (off : Nat) : Nat → β → Checked β
  | 0, acc => .ok acc
  | len + 1, acc => do
      let a ← b.read off
      b.foldRange f (off + 1) len (f off acc a)

/-- The first index of `[off, off + len)` whose cell satisfies `p`; the search stops
    there and reads no further. -/
def findFrom (p : α → Bool) (b : Block α n) (off : Nat) : Nat → Checked (Option Nat)
  | 0 => .ok none
  | len + 1 => do
      let a ← b.read off
      if p a then pure (some off) else b.findFrom p (off + 1) len

-- ── Single cells ─────────────────────────────────────────────────────────────

theorem read_eq_ok {b : Block α n} {i : Nat} {a : α} :
    b.read i = .ok a ↔ b.cells[i]? = some a := by
  rw [read]
  cases h : b.cells[i]? with
  | none => simp
  | some c => simp

/-- A read faults exactly when the index is past the end. -/
theorem read_eq_error {b : Block α n} {i : Nat} {e : Fault} :
    b.read i = .error e ↔ n ≤ i ∧ e = ⟨i⟩ := by
  rw [read]
  cases h : b.cells[i]? with
  | none =>
      have hi : n ≤ i := by
        have h' := List.getElem?_eq_none_iff.mp h
        rw [b.size] at h'
        exact h'
      simp [hi, eq_comm]
  | some c =>
      have hi : i < n := by
        have h' := (List.getElem?_eq_some_iff.mp h).1
        rw [b.size] at h'
        exact h'
      simp only [reduceCtorEq, false_iff, not_and]
      intro hle
      omega

/-- Inside the block a read succeeds, and the cell heads the remaining suffix. -/
theorem read_of_lt (b : Block α n) {i : Nat} (h : i < n) :
    ∃ a, b.read i = .ok a ∧ b.cells[i]? = some a ∧
      b.cells.drop i = a :: b.cells.drop (i + 1) := by
  have hi : i < b.cells.length := by rw [b.size]; exact h
  refine ⟨b.cells[i], ?_, List.getElem?_eq_getElem hi, List.drop_eq_getElem_cons hi⟩
  exact read_eq_ok.mpr (List.getElem?_eq_getElem hi)

theorem read_of_le (b : Block α n) {i : Nat} (h : n ≤ i) : b.read i = .error ⟨i⟩ :=
  read_eq_error.mpr ⟨h, rfl⟩

/-- The cell behind two parts of a block. -/
theorem read_skip {b : Block α n} {front skip rest : List α} {a : α}
    (hcells : b.cells = front ++ (skip ++ a :: rest)) :
    b.read (front.length + skip.length) = .ok a := by
  rw [read_eq_ok, hcells, List.getElem?_append_right (by omega), Nat.add_sub_cancel_left,
    List.getElem?_append_right (Nat.le_refl _), Nat.sub_self]
  rfl

theorem read_cons {b : Block α n} {front rest : List α} {a : α}
    (hcells : b.cells = front ++ a :: rest) : b.read front.length = .ok a := by
  rw [read_eq_ok, hcells, List.getElem?_append_right (Nat.le_refl _), Nat.sub_self]
  rfl

-- ── Reading a range ──────────────────────────────────────────────────────────

/-- A range that fits is read as the corresponding sublist. -/
theorem readRange_eq (b : Block α n) {off len : Nat} (h : off + len ≤ n) :
    b.readRange off len = .ok ((b.cells.drop off).take len) := by
  induction len generalizing off with
  | zero => simp [readRange]
  | succ len ih =>
      obtain ⟨a, hread, -, hdrop⟩ := b.read_of_lt (i := off) (by omega)
      rw [readRange, hread, ok_bind, ih (by omega), ok_bind, hdrop, List.take_succ_cons]
      rfl

-- ── Folding over a range ─────────────────────────────────────────────────────

/-- The same law for a fold that ignores the index. -/
theorem foldRange_eq_foldl (f : β → α → β) (b : Block α n) {off len : Nat} (acc : β)
    (h : off + len ≤ n) :
    b.foldRange (fun _ => f) off len acc =
      .ok (((b.cells.drop off).take len).foldl f acc) := by
  induction len generalizing off acc with
  | zero => simp [foldRange]
  | succ len ih =>
      obtain ⟨a, hread, -, hdrop⟩ := b.read_of_lt (i := off) (by omega)
      rw [foldRange, hread, ok_bind, ih (f acc a) (by omega), hdrop, List.take_succ_cons,
        List.foldl_cons]

/-- A fold over a range that does not fit faults at the first cell past the end. -/
theorem foldRange_fault (f : Nat → β → α → β) (b : Block α n) {off len : Nat} (acc : β)
    (hoff : off ≤ n) (h : n < off + len) :
    b.foldRange f off len acc = .error ⟨n⟩ := by
  induction len generalizing off acc with
  | zero => omega
  | succ len ih =>
      rw [foldRange]
      by_cases hlt : off < n
      · obtain ⟨a, hread, -, -⟩ := b.read_of_lt hlt
        rw [hread, ok_bind, ih (f off acc a) (by omega) (by omega)]
      · have hn : off = n := by omega
        rw [hn, b.read_of_le (Nat.le_refl n), error_bind]

-- ── Searching a range ────────────────────────────────────────────────────────

/-- A hit at index `i`, with no hit before it, is found whatever lies beyond. -/
theorem findFrom_hit {p : α → Bool} {b : Block α n} {off i len : Nat} {a : α}
    (hoff : off ≤ i) (hlen : i < off + len) (hget : b.cells[i]? = some a) (hp : p a = true)
    (hmiss : ∀ j c, off ≤ j → j < i → b.cells[j]? = some c → p c = false) :
    b.findFrom p off len = .ok (some i) := by
  induction len generalizing off with
  | zero => omega
  | succ len ih =>
      rw [findFrom]
      by_cases heq : off = i
      · subst heq
        rw [read_eq_ok.mpr hget, ok_bind, if_pos hp]
        rfl
      · have hin : i < n := by
          have h' := (List.getElem?_eq_some_iff.mp hget).1
          rw [b.size] at h'
          exact h'
        obtain ⟨c, hread, hc, -⟩ := b.read_of_lt (i := off) (by omega)
        have hpc : p c = false := hmiss off c (Nat.le_refl off) (by omega) hc
        rw [hread, ok_bind, if_neg (by rw [hpc]; exact Bool.false_ne_true)]
        refine ih (by omega) (by omega) ?_
        intro j d hj hji hd
        exact hmiss j d (by omega) hji hd

/-- A search that starts in front of some misses and a hit behind them skips the misses. -/
theorem findFrom_skip {p : α → Bool} {b : Block α n} {front skip rest : List α} {a : α}
    (hcells : b.cells = front ++ (skip ++ a :: rest)) (hskip : ∀ c ∈ skip, p c = false)
    (ha : p a = true) {len : Nat} (hlen : skip.length < len) :
    b.findFrom p front.length len = .ok (some (front.length + skip.length)) := by
  refine findFrom_hit (by omega) (by omega) (read_eq_ok.mp (read_skip hcells)) ha ?_
  intro j c hj hlt hc
  rw [hcells, List.getElem?_append_right hj, List.getElem?_append_left (by omega)] at hc
  exact hskip c (List.mem_of_getElem? hc)

/-- A search over a range that contains a hit stops at the first one. -/
theorem findFrom_first {p : α → Bool} {b : Block α n} {j len : Nat} {a : α} (hj : j < len)
    (hget : b.cells[j]? = some a) (hp : p a = true) :
    ∃ i c, i ≤ j ∧ b.findFrom p 0 len = .ok (some i) ∧ b.cells[i]? = some c ∧ p c = true ∧
      ∀ k d, k < i → b.cells[k]? = some d → p d = false := by
  obtain ⟨hin, hval⟩ := List.getElem?_eq_some_iff.mp hget
  have hlt : b.cells.findIdx p < b.cells.length :=
    List.findIdx_lt_length_of_exists ⟨a, List.mem_of_getElem? hget, hp⟩
  have hmiss : ∀ k d, k < b.cells.findIdx p → b.cells[k]? = some d → p d = false := by
    intro k d hk hd
    obtain ⟨hkin, hdval⟩ := List.getElem?_eq_some_iff.mp hd
    rw [← hdval]
    exact List.not_of_lt_findIdx hk
  have hle : b.cells.findIdx p ≤ j := by
    by_contra hgt
    have hno := hmiss j a (by omega) hget
    rw [hp] at hno
    exact nomatch hno
  have hhit : p b.cells[b.cells.findIdx p] = true := List.findIdx_getElem
  have hcell := List.getElem?_eq_getElem hlt
  refine ⟨b.cells.findIdx p, _, hle, ?_, hcell, hhit, hmiss⟩
  exact findFrom_hit (Nat.zero_le _) (by omega) hcell hhit
    (fun k d _ hk hd => hmiss k d hk hd)

/-- A search without a hit over a range that fits finds nothing. -/
theorem findFrom_miss {p : α → Bool} {b : Block α n} {off len : Nat} (h : off + len ≤ n)
    (hmiss : ∀ j a, off ≤ j → j < off + len → b.cells[j]? = some a → p a = false) :
    b.findFrom p off len = .ok none := by
  induction len generalizing off with
  | zero => rfl
  | succ len ih =>
      obtain ⟨a, hread, hget, -⟩ := b.read_of_lt (i := off) (by omega)
      have hpa := hmiss off a (Nat.le_refl off) (by omega) hget
      rw [findFrom, hread, ok_bind, if_neg (by simp [hpa])]
      refine ih (by omega) ?_
      intro j c hj hlt hc
      exact hmiss j c (by omega) (by omega) hc

/-- A search without a hit over a range that does not fit faults at the end. -/
theorem findFrom_fault {p : α → Bool} {b : Block α n} (hmiss : ∀ a ∈ b.cells, p a = false)
    {off len : Nat} (hoff : off ≤ n) (h : n < off + len) :
    b.findFrom p off len = .error ⟨n⟩ := by
  induction len generalizing off with
  | zero => omega
  | succ len ih =>
      rw [findFrom]
      by_cases hlt : off < n
      · obtain ⟨a, hread, hget, -⟩ := b.read_of_lt hlt
        have hpa := hmiss a (List.mem_of_getElem? hget)
        rw [hread, ok_bind, if_neg (by simp [hpa]), ih (by omega) (by omega)]
      · have hn : off = n := by omega
        rw [hn, b.read_of_le (Nat.le_refl n), error_bind]

/-- A search over a range that fits stays inside. -/
theorem findFrom_inside (p : α → Bool) (b : Block α n) {off len : Nat} (h : off + len ≤ n) :
    ∃ found, b.findFrom p off len = .ok found ∧ ∀ i, found = some i → i < n := by
  induction len generalizing off with
  | zero => exact ⟨none, rfl, fun i hi => nomatch hi⟩
  | succ len ih =>
      obtain ⟨a, hread, -, -⟩ := b.read_of_lt (i := off) (by omega)
      rw [findFrom, hread, ok_bind]
      by_cases hp : p a
      · refine ⟨some off, by rw [if_pos hp]; rfl, ?_⟩
        intro i hi
        cases hi
        omega
      · rw [if_neg hp]
        exact ih (by omega)

-- ── Writing ──────────────────────────────────────────────────────────────────

/-- The cell behind two parts of a block is replaced, and nothing else. -/
theorem write_skip {b : Block α n} {front skip rest : List α} {a : α}
    (hcells : b.cells = front ++ (skip ++ a :: rest)) (v : α) :
    ∃ out, b.write (front.length + skip.length) v = .ok out ∧
      out.cells = front ++ (skip ++ v :: rest) := by
  have hlen := congrArg List.length hcells
  rw [b.size, List.length_append, List.length_append, List.length_cons] at hlen
  refine ⟨⟨b.cells.set (front.length + skip.length) v, by rw [List.length_set, b.size]⟩, ?_, ?_⟩
  · rw [write, if_pos (by omega)]
  · show b.cells.set _ v = _
    rw [hcells, List.set_append_right _ _ (by omega), Nat.add_sub_cancel_left,
      List.set_append_right _ _ (Nat.le_refl _), Nat.sub_self]
    rfl

theorem write_cons {b : Block α n} {front rest : List α} {a : α}
    (hcells : b.cells = front ++ a :: rest) (v : α) :
    ∃ out, b.write front.length v = .ok out ∧ out.cells = front ++ v :: rest := by
  have hskip : b.cells = front ++ ([] ++ a :: rest) := hcells
  exact write_skip hskip v

-- ── Writing a range ──────────────────────────────────────────────────────────

/-- The block with the cells from `off` on replaced by a list that fits. -/
def splice (b : Block α n) (off : Nat) (l : List α) (h : off + l.length ≤ n) : Block α n :=
  ⟨b.cells.take off ++ l ++ b.cells.drop (off + l.length), by
    simp only [List.length_append, List.length_take, List.length_drop, b.size]
    omega⟩

theorem cells_splice_front (b : Block α n) {l : List α} (h : 0 + l.length ≤ n) :
    (b.splice 0 l h).cells = l ++ b.cells.drop l.length := by
  show b.cells.take 0 ++ l ++ b.cells.drop (0 + l.length) = _
  rw [List.take_zero, List.nil_append, Nat.zero_add]

/-- Writing a list that fits splices it in. -/
theorem writeRange_eq (b : Block α n) {off : Nat} {l : List α} (h : off + l.length ≤ n) :
    b.writeRange off l = .ok (b.splice off l h) := by
  induction l generalizing b off with
  | nil =>
      rw [writeRange]
      refine congrArg Except.ok (ext ?_)
      simp [splice]
  | cons a rest ih =>
      have hlen : off + (rest.length + 1) ≤ n := by simpa using h
      rw [writeRange, write, if_pos (by omega), ok_bind,
        ih ⟨b.cells.set off a, by rw [List.length_set, b.size]⟩ (by omega)]
      refine congrArg Except.ok (ext ?_)
      have hoff : off < b.cells.length := by rw [b.size]; omega
      show (b.cells.set off a).take (off + 1) ++ rest
          ++ (b.cells.set off a).drop (off + 1 + rest.length) =
        b.cells.take off ++ a :: rest ++ b.cells.drop (off + (rest.length + 1))
      rw [List.take_set, List.drop_set_of_lt (by omega), List.set_eq_take_append_cons_drop,
        if_pos (by rw [List.length_take]; omega), List.take_take,
        show min off (off + 1) = off from by omega, List.drop_take, Nat.sub_self,
        List.take_zero, show off + 1 + rest.length = off + (rest.length + 1) from by omega]
      simp

/-- Writing a list that does not fit faults. -/
theorem writeRange_fault (b : Block α n) {off : Nat} {l : List α} (hoff : off ≤ n)
    (h : n < off + l.length) : b.writeRange off l = .error ⟨n⟩ := by
  induction l generalizing b off with
  | nil => simp only [List.length_nil] at h; omega
  | cons a rest ih =>
      rw [List.length_cons] at h
      rw [writeRange, write]
      by_cases hlt : off < n
      · rw [if_pos hlt, ok_bind]
        exact ih _ (by omega) (by omega)
      · rw [if_neg hlt, error_bind, show off = n from by omega]

@[simp] theorem take_splice (b : Block α n) (l : List α) (h : 0 + l.length ≤ n) :
    (b.splice 0 l h).cells.take l.length = l := by
  simp [splice]

/-- Moving a range that fits, at both ends, splices the source range in. -/
theorem moveRange_eq (b : Block α n) {dst src len : Nat} (hs : src + len ≤ n)
    (hd : dst + len ≤ n) :
    ∃ b', b.moveRange dst src len = .ok b' ∧
      b'.cells = b.cells.take dst ++ (b.cells.drop src).take len
        ++ b.cells.drop (dst + len) := by
  have hlen : ((b.cells.drop src).take len).length = len := by
    rw [List.length_take, List.length_drop, b.size]
    omega
  have hfit : dst + ((b.cells.drop src).take len).length ≤ n := by rw [hlen]; exact hd
  refine ⟨b.splice dst _ hfit, ?_, ?_⟩
  · rw [moveRange, b.readRange_eq hs, ok_bind, b.writeRange_eq hfit]
  · simp only [splice, hlen]

/-- Closing a gap: moving the cells above `i` down by one erases cell `i` from the
    first `c` cells. The last of those `c` cells keeps its old value, so it now
    appears twice. -/
theorem moveRange_closeGap (b : Block α n) {i c : Nat} (hi : i < c) (hc : c ≤ n) :
    ∃ b', b.moveRange i (i + 1) (c - i - 1) = .ok b' ∧
      b'.cells.take (c - 1) = (b.cells.take c).eraseIdx i ∧
      b'.cells.drop (c - 1) = b.cells.drop (c - 1) := by
  have hread : i + 1 + (c - i - 1) ≤ n := by omega
  have hwrite : i + (c - i - 1) ≤ n := by omega
  obtain ⟨b', hmove, hcells⟩ := b.moveRange_eq hread hwrite
  have hsize := b.size
  have hfront : (b.cells.take i ++ (b.cells.drop (i + 1)).take (c - i - 1)).length = c - 1 := by
    simp only [List.length_append, List.length_take, List.length_drop]
    omega
  refine ⟨b', hmove, ?_, ?_⟩
  · rw [hcells, List.take_left' hfront, List.eraseIdx_eq_take_drop_succ, List.take_take,
      show min i c = i from by omega, List.drop_take,
      show c - (i + 1) = c - i - 1 from by omega]
  · rw [hcells, List.drop_left' hfront, show i + (c - i - 1) = c - 1 from by omega]

end Block

end CheckedMemory
