import TradeSynth.TradeTrimProofs

/-!
# Text in place — copying with a bound, and the two case conversions

`safe_strncpy` copies with `strncpy` and then writes the last byte of the destination
itself. `string_to_upper` and `string_to_lower` walk a string and replace its letters.

* A copy writes the first `size` bytes of its destination and no others, always leaves a
  C string there, and loses nothing exactly when the string was shorter than `size`
  (`safe_strncpy_correct`).
* A conversion stays within its string, the last of several decides, and it may be made
  before or after trimming (`string_case_correct`).
-/

namespace TradeText

open CheckedMemory TradeTypes TradeStrings TradeTrim

variable {n : Nat}

-- ── Copying ──────────────────────────────────────────────────────────────────

/-- `strncpy`: as much of the string as `len` allows, and zeros up to `len`. It reads its
    source up to a NUL, or up to `len`. -/
def strncpy (dest : Block UInt8 n) (src : List UInt8) (len : Nat) : Checked (Block UInt8 n) :=
  if src.length < len ∧ 0 ∉ src then .error ⟨src.length⟩
  else dest.writeRange 0 (((cString src).take len).rightpad len 0)

/-- The result is `none` where `NULL` is returned; the source is the memory that `src`
    points to, if it is not `NULL`. -/
def safeStrncpy (dest : Block UInt8 n) (src : Option (List UInt8)) (size : Nat) :
    Checked (Option (Block UInt8 n)) :=
  match src with
  | none => .ok none
  | some src =>
      if size = 0 then .ok none
      else do
        let dest ← strncpy dest src (size - 1)
        let dest ← dest.write (size - 1) 0
        pure (some dest)

/-- What a copy of `size` bytes keeps of a string. -/
def kept (src : List UInt8) (size : Nat) : List UInt8 := (cString src).take (size - 1)

theorem zero_not_mem_cString (memory : List UInt8) : 0 ∉ cString memory := by
  intro hmem
  have hne := List.mem_takeWhile_imp hmem
  exact absurd hne (by decide)

theorem length_kept_lt (src : List UInt8) {size : Nat} (h : 0 < size) :
    (kept src size).length < size := by
  rw [kept, List.length_take]
  omega

/-- The bytes that `strncpy` writes, with the one behind them. -/
theorem kept_pad (src : List UInt8) {size : Nat} (h : 0 < size) :
    ((cString src).take (size - 1)).rightpad (size - 1) 0 ++ [0] =
      kept src size ++ List.replicate (size - (kept src size).length) 0 := by
  have hlen := length_kept_lt src h
  have hsize : size - (kept src size).length = size - 1 - (kept src size).length + 1 := by
    omega
  rw [hsize, List.replicate_succ', ← List.append_assoc]
  rfl

/-- A copy that stays inside both of its blocks. -/
theorem safeStrncpy_eq {dest : Block UInt8 n} {src : List UInt8} {size : Nat}
    (hsize : 0 < size) (hdest : size ≤ n) (hsrc : 0 ∈ src ∨ size - 1 ≤ src.length) :
    ∃ out, safeStrncpy dest (some src) size = .ok (some out) ∧
      out.cells = kept src size ++ (List.replicate (size - (kept src size).length) 0 ++
        dest.cells.drop size) := by
  have hpad : (((cString src).take (size - 1)).rightpad (size - 1) 0).length = size - 1 := by
    rw [List.length_rightpad, List.length_take]
    omega
  have hfit : 0 + (((cString src).take (size - 1)).rightpad (size - 1) 0).length ≤ n := by
    rw [hpad]
    omega
  have hread : ¬ (src.length < size - 1 ∧ 0 ∉ src) := by
    rintro ⟨hshort, hnone⟩
    rcases hsrc with hzero | hlong
    · exact hnone hzero
    · omega
  obtain ⟨b, hb⟩ : ∃ b, dest.cells.drop (size - 1) = b :: dest.cells.drop size := by
    have hlt : size - 1 < dest.cells.length := by
      rw [dest.size]
      omega
    refine ⟨dest.cells[size - 1], ?_⟩
    rw [List.drop_eq_getElem_cons hlt, Nat.sub_add_cancel hsize]
  have hcells : (dest.splice 0 _ hfit).cells = [] ++
      (((cString src).take (size - 1)).rightpad (size - 1) 0 ++ b :: dest.cells.drop size) := by
    rw [Block.splice, ← hb]
    simp only [List.take_zero, List.nil_append, Nat.zero_add, hpad]
  obtain ⟨out, hwrite, hout⟩ := Block.write_skip hcells 0
  rw [hpad, List.length_nil, Nat.zero_add] at hwrite
  refine ⟨out, ?_, ?_⟩
  · rw [safeStrncpy, if_neg (by omega), strncpy, if_neg hread, dest.writeRange_eq hfit, ok_bind,
      hwrite]
    rfl
  · rw [hout, List.nil_append, ← List.append_assoc, ← kept_pad src hsize, List.append_assoc]
    rfl

/-- **Copying.** A copy stays inside its two blocks exactly when the destination has `size`
    bytes and the source ends, or has bytes enough. It then replaces the first `size` bytes
    of the destination and no others, and leaves there a C string: as much of the source as
    fits, all of it exactly when it is shorter than `size`. -/
theorem safe_strncpy_correct (dest : Block UInt8 n) (src : List UInt8) {size : Nat}
    (hsize : 0 < size) :
    ((∃ result, safeStrncpy dest (some src) size = .ok result) ↔
      size ≤ n ∧ (0 ∈ src ∨ size - 1 ≤ src.length)) ∧
    ∀ result, safeStrncpy dest (some src) size = .ok result → ∃ out, result = some out ∧
      out.cells.drop size = dest.cells.drop size ∧ Terminated (out.cells.take size) ∧
      cString out.cells = (cString src).take (size - 1) ∧
      (cString out.cells = cString src ↔ (cString src).length < size) := by
  have hinside : (∃ result, safeStrncpy dest (some src) size = .ok result) ↔
      size ≤ n ∧ (0 ∈ src ∨ size - 1 ≤ src.length) := by
    constructor
    · rintro ⟨result, hresult⟩
      rw [safeStrncpy, if_neg (by omega)] at hresult
      obtain ⟨copied, hcopied, hresult⟩ := bind_eq_ok.mp hresult
      obtain ⟨out, hwrite, -⟩ := bind_eq_ok.mp hresult
      constructor
      · rw [Block.write] at hwrite
        split at hwrite
        · omega
        · cases hwrite
      · rw [strncpy] at hcopied
        split at hcopied
        · cases hcopied
        · next hread =>
            by_cases hzero : 0 ∈ src
            · exact Or.inl hzero
            · refine Or.inr (Nat.le_of_not_lt (fun hshort => hread ⟨hshort, hzero⟩))
    · rintro ⟨hdest, hsrc⟩
      obtain ⟨out, hout, -⟩ := @safeStrncpy_eq _ dest _ _ hsize hdest hsrc
      exact ⟨_, hout⟩
  refine ⟨hinside, ?_⟩
  intro result hresult
  obtain ⟨hdest, hsrc⟩ := hinside.mp ⟨result, hresult⟩
  obtain ⟨out, hout, hcells⟩ := @safeStrncpy_eq _ dest _ _ hsize hdest hsrc
  rw [hout] at hresult
  cases hresult
  have hlen := length_kept_lt src hsize
  have hfront : (kept src size ++
      List.replicate (size - (kept src size).length) 0).length = size := by
    rw [List.length_append, List.length_replicate]
    omega
  have hzero : 0 ∉ kept src size :=
    fun hmem => zero_not_mem_cString src (List.mem_of_mem_take hmem)
  have hmany : List.replicate (size - (kept src size).length) (0 : UInt8) =
      0 :: List.replicate (size - (kept src size).length - 1) 0 := by
    rw [← List.replicate_succ]
    congr 1
    omega
  have hstring : cString out.cells = kept src size := by
    rw [hcells, hmany, List.cons_append, cString_append hzero]
  refine ⟨out, rfl, ?_, ?_, hstring, ?_⟩
  · rw [hcells, ← List.append_assoc, List.drop_left' hfront]
  · rw [hcells, ← List.append_assoc, List.take_left' hfront, Terminated, hmany]
    exact List.mem_append_right _ List.mem_cons_self
  · rw [hstring, kept, List.take_eq_self_iff]
    omega

/-- The symbol `AAPL` into five of eight bytes. -/
theorem safe_strncpy_correct_symbol :
    ((∃ result, safeStrncpy (Block.fill 8 7) (some [65, 65, 80, 76, 0]) 5 = .ok result) ↔
      5 ≤ 8 ∧ (0 ∈ ([65, 65, 80, 76, 0] : List UInt8) ∨
        5 - 1 ≤ ([65, 65, 80, 76, 0] : List UInt8).length)) ∧
    ∀ result, safeStrncpy (Block.fill 8 7) (some [65, 65, 80, 76, 0]) 5 = .ok result →
      ∃ out, result = some out ∧
        out.cells.drop 5 = (Block.fill 8 (7 : UInt8)).cells.drop 5 ∧
        Terminated (out.cells.take 5) ∧
        cString out.cells = (cString [65, 65, 80, 76, 0]).take (5 - 1) ∧
        (cString out.cells = cString [65, 65, 80, 76, 0] ↔
          (cString [65, 65, 80, 76, 0]).length < 5) :=
  safe_strncpy_correct (Block.fill 8 7) [65, 65, 80, 76, 0] (by decide)

-- ── Letters ──────────────────────────────────────────────────────────────────

/-- `toupper` in the C locale. -/
def toupper (c : UInt8) : UInt8 := if 97 ≤ c ∧ c ≤ 122 then c - 32 else c

/-- `tolower` in the C locale. -/
def tolower (c : UInt8) : UInt8 := if 65 ≤ c ∧ c ≤ 90 then c + 32 else c

/-- What holds of 256 bytes holds of every byte. -/
theorem forall_byte {P : UInt8 → Prop} (h : ∀ i : Fin 256, P (UInt8.ofFin i)) (c : UInt8) :
    P c := h c.toFin

theorem toupper_tolower (c : UInt8) : toupper (tolower c) = toupper c := by
  revert c
  exact forall_byte (by decide +kernel)

theorem tolower_toupper (c : UInt8) : tolower (toupper c) = tolower c := by
  revert c
  exact forall_byte (by decide +kernel)

/-- What the loops need of a conversion. -/
structure Letterwise (f : UInt8 → UInt8) : Prop where
  zero  : ∀ c, f c = 0 ↔ c = 0
  space : ∀ c, isSpace (f c) = isSpace c
  blank : ∀ c, isSpace c = true → f c = c

theorem letterwise_toupper : Letterwise toupper where
  zero := forall_byte (by decide +kernel)
  space := forall_byte (by decide +kernel)
  blank := forall_byte (by decide +kernel)

theorem letterwise_tolower : Letterwise tolower where
  zero := forall_byte (by decide +kernel)
  space := forall_byte (by decide +kernel)
  blank := forall_byte (by decide +kernel)

-- ── The loop ─────────────────────────────────────────────────────────────────

/-- `INT_MAX` -/
def intMax : Nat := 2 ^ 31 - 1

/-- The loop of the conversions, with its counter at `i`; the last argument is one more
    than the block has cells behind that. The counter is an `int`, and where `i++` would
    overflow the loop faults. -/
def convert (f : UInt8 → UInt8) (buffer : Block UInt8 n) (str i : Nat) :
    Nat → Checked (Block UInt8 n)
  | 0 => .ok buffer
  | k + 1 => do
      let c ← buffer.read (str + i)
      if c = 0 then pure buffer
      else do
        let buffer ← buffer.write (str + i) (f c)
        if i < intMax then convert f buffer str (i + 1) k else .error ⟨str + i⟩

/-- `ERROR_INVALID_PARAM` in `utils.c`, where the macro of `logger.h` hides the enumerator
    of `types.h`. -/
def errorInvalidParam : Int := -1

def stringToUpper (buffer : Block UInt8 n) (str : Option Nat) : Checked (Int × Block UInt8 n) :=
  match str with
  | none => .ok (errorInvalidParam, buffer)
  | some str => do
      let buffer ← convert toupper buffer str 0 (n + 1 - str)
      pure (ErrorCode.success.code, buffer)

def stringToLower (buffer : Block UInt8 n) (str : Option Nat) : Checked (Int × Block UInt8 n) :=
  match str with
  | none => .ok (errorInvalidParam, buffer)
  | some str => do
      let buffer ← convert tolower buffer str 0 (n + 1 - str)
      pure (ErrorCode.success.code, buffer)

/-- The loop replaces the bytes of a string that the counter can walk, and leaves what
    surrounds it. -/
theorem convert_run (f : UInt8 → UInt8) {str : Nat} (s : List UInt8) :
    ∀ {buffer : Block UInt8 n} {front back : List UInt8} {i k : Nat},
      buffer.cells = front ++ (s ++ 0 :: back) → front.length = str + i → 0 ∉ s →
      s.length < k → i + s.length ≤ intMax →
      ∃ out, convert f buffer str i k = .ok out ∧
        out.cells = front ++ (s.map f ++ 0 :: back) := by
  induction s with
  | nil =>
      intro buffer front back i k hcells hfront _ hk _
      obtain ⟨k, rfl⟩ : ∃ j, k = j + 1 := ⟨k - 1, by rw [List.length_nil] at hk; omega⟩
      have hread : buffer.read front.length = .ok 0 := Block.read_cons hcells
      refine ⟨buffer, ?_, hcells⟩
      rw [convert, ← hfront, hread, ok_bind, if_pos rfl, pure_eq_ok]
  | cons c s ih =>
      intro buffer front back i k hcells hfront hzero hk hmax
      rw [List.length_cons] at hk hmax
      obtain ⟨k, rfl⟩ : ∃ j, k = j + 1 := ⟨k - 1, by omega⟩
      have hc : c ≠ 0 := by
        rintro rfl
        exact hzero List.mem_cons_self
      have hsplit : buffer.cells = front ++ c :: (s ++ 0 :: back) := hcells
      have hread := Block.read_cons hsplit
      obtain ⟨next, hwrite, hnext⟩ := Block.write_cons hsplit (f c)
      have hadvance : next.cells = (front ++ [f c]) ++ (s ++ 0 :: back) := by
        rw [hnext, List.append_assoc]
        rfl
      have hlength : (front ++ [f c]).length = str + (i + 1) := by
        rw [List.length_append, List.length_singleton, hfront, Nat.add_assoc]
      obtain ⟨out, hout, hcells'⟩ := ih hadvance hlength
        (fun hmem => hzero (List.mem_cons_of_mem c hmem)) (Nat.lt_of_succ_lt_succ hk) (by omega)
      refine ⟨out, ?_, ?_⟩
      · rw [convert, ← hfront, hread, ok_bind, if_neg hc, hwrite, ok_bind, if_pos (by omega), hout]
      · rw [hcells', List.append_assoc]
        rfl

theorem convert_spec (f : UInt8 → UInt8) {s : List UInt8} {buffer : Block UInt8 n}
    {front back : List UInt8} {k : Nat} (hcells : buffer.cells = front ++ (s ++ 0 :: back))
    (hzero : 0 ∉ s) (hk : s.length < k) (hmax : s.length ≤ intMax) :
    ∃ out, convert f buffer front.length 0 k = .ok out ∧
      out.cells = front ++ (s.map f ++ 0 :: back) :=
  convert_run f s hcells (Nat.add_zero _).symm hzero hk (by rwa [Nat.zero_add])

/-- Where no NUL comes within reach of the counter, the loop faults. -/
theorem convert_fault (f : UInt8 → UInt8) {str : Nat} (k : Nat) :
    ∀ {buffer : Block UInt8 n} {i : Nat},
      0 ∉ (buffer.cells.drop (str + i)).take (intMax + 1 - i) → i ≤ intMax → str + i ≤ n →
      n < str + i + k → ∃ e, convert f buffer str i k = .error e := by
  induction k with
  | zero =>
      intro buffer i _ _ hstr hk
      omega
  | succ k ih =>
      intro buffer i hnone hi hstr hk
      rw [convert]
      by_cases hlt : str + i < n
      · obtain ⟨c, hread, -, hdrop⟩ := buffer.read_of_lt hlt
        rw [hdrop, show intMax + 1 - i = (intMax - i) + 1 by omega, List.take_succ_cons] at hnone
        have hc : c ≠ 0 := by
          rintro rfl
          exact hnone List.mem_cons_self
        rw [hread, ok_bind, if_neg hc, Block.write, if_pos hlt, ok_bind]
        by_cases hnext : i < intMax
        · rw [if_pos hnext]
          refine ih ?_ hnext (by omega) (by omega)
          rw [← Nat.add_assoc, List.drop_set_of_lt (Nat.lt_succ_self _), Nat.add_sub_add_right]
          exact fun hmem => hnone (List.mem_cons_of_mem c hmem)
        · rw [if_neg hnext]
          exact ⟨_, rfl⟩
      · rw [buffer.read_of_le (by omega), error_bind]
        exact ⟨_, rfl⟩

/-- A conversion keeps the pieces that trimming sees. -/
theorem pieces_map {f : UInt8 → UInt8} (hf : Letterwise f) {s lead core trail : List UInt8}
    (h : Pieces s lead core trail) :
    Pieces (s.map f) (lead.map f) (core.map f) (trail.map f) where
  split := by rw [h.split, List.map_append, List.map_append]
  leading c hc := by
    obtain ⟨d, hd, rfl⟩ := List.mem_map.mp hc
    rw [hf.space, h.leading d hd]
  trailing c hc := by
    obtain ⟨d, hd, rfl⟩ := List.mem_map.mp hc
    rw [hf.space, h.trailing d hd]
  begins c hc := by
    rw [List.head?_map] at hc
    obtain ⟨d, hd, rfl⟩ := Option.map_eq_some_iff.mp hc
    rw [hf.space, h.begins d hd]
  ends c hc := by
    rw [List.getLast?_map] at hc
    obtain ⟨d, hd, rfl⟩ := Option.map_eq_some_iff.mp hc
    rw [hf.space, h.ends d hd]
  empty hcore := by rw [h.empty (List.map_eq_nil_iff.mp hcore), List.map_nil]

theorem not_mem_map {f : UInt8 → UInt8} (hf : Letterwise f) {s : List UInt8} (h : 0 ∉ s) :
    0 ∉ s.map f := by
  intro hmem
  obtain ⟨c, hc, hzero⟩ := List.mem_map.mp hmem
  exact h ((hf.zero c).mp hzero ▸ hc)

theorem map_blank {f : UInt8 → UInt8} (hf : Letterwise f) {l : List UInt8}
    (h : ∀ c ∈ l, isSpace c = true) : l.map f = l := by
  conv_rhs => rw [← List.map_id l]
  exact List.map_congr_left (fun c hc => hf.blank c (h c hc))

/-- The loop stays inside the block, and its counter in range, exactly when the string is
    one that the counter can walk. -/
theorem convert_inside_iff (f : UInt8 → UInt8) {buffer : Block UInt8 n}
    {front s back : List UInt8} (hcells : buffer.cells = front ++ (s ++ 0 :: back))
    (hzero : 0 ∉ s) :
    (∃ out, convert f buffer front.length 0 (n + 1 - front.length) = .ok out) ↔
      s.length < 2 ^ 31 := by
  have hlen := congrArg List.length hcells
  rw [buffer.size, List.length_append, List.length_append, List.length_cons] at hlen
  constructor
  · rintro ⟨out, hout⟩
    by_contra hlong
    have hmax : intMax + 1 ≤ s.length := by
      rw [intMax]
      omega
    have hnone : 0 ∉ (buffer.cells.drop (front.length + 0)).take (intMax + 1 - 0) := by
      show 0 ∉ (buffer.cells.drop front.length).take (intMax + 1)
      rw [hcells, List.drop_left, List.take_append_of_le_length hmax]
      exact fun hmem => hzero (List.mem_of_mem_take hmem)
    obtain ⟨e, he⟩ := convert_fault f (n + 1 - front.length) hnone (Nat.zero_le _) (by omega)
      (by omega)
    rw [hout] at he
    cases he
  · intro hshort
    obtain ⟨out, hout, -⟩ := convert_spec f (k := n + 1 - front.length) hcells hzero (by omega)
      (by rw [intMax]; omega)
    exact ⟨out, hout⟩

/-- A conversion before trimming comes to the same as one behind it. -/
theorem trim_convert {f : UInt8 → UInt8} (hf : Letterwise f) {buffer : Block UInt8 n}
    {front s back : List UInt8} (hcells : buffer.cells = front ++ (s ++ 0 :: back))
    (hzero : 0 ∉ s) (hmax : s.length ≤ intMax) :
    ∃ p trimmed converted out, trimWhitespace buffer front.length = .ok (p, trimmed) ∧
      convert f trimmed p 0 (n + 1 - p) = .ok out ∧
      convert f buffer front.length 0 (n + 1 - front.length) = .ok converted ∧
      trimWhitespace converted front.length = .ok (p, out) := by
  obtain ⟨lead, core, trail, h⟩ := exists_pieces s
  have hlen := congrArg List.length hcells
  rw [buffer.size, List.length_append, List.length_append, List.length_cons] at hlen
  have hs := congrArg List.length h.split
  rw [List.length_append, List.length_append] at hs
  have hcore : 0 ∉ core := by
    intro hmem
    apply hzero
    rw [h.split]
    exact List.mem_append_right lead (List.mem_append_left trail hmem)
  obtain ⟨trimmed, htrim, htrimmed⟩ := trimWhitespace_run hcells hzero h
  obtain ⟨converted, hconvert, hconverted⟩ :=
    convert_spec f (k := n + 1 - front.length) hcells hzero (by omega) hmax
  obtain ⟨after, hafter, hafter'⟩ :=
    trimWhitespace_run hconverted (not_mem_map hf hzero) (pieces_map hf h)
  have hbegin : trimmed.cells = (front ++ lead) ++ (core ++ 0 :: (trail ++ 0 :: back).tail) := by
    rw [htrimmed, List.append_assoc]
  obtain ⟨out, hout, hout'⟩ :=
    convert_spec f (k := n + 1 - (front.length + lead.length)) hbegin hcore (by omega) (by omega)
  have hsame : after = out := by
    apply Block.ext
    rw [hafter', hout', map_blank hf h.leading, map_blank hf h.trailing, List.append_assoc]
  rw [List.length_append] at hout
  rw [List.length_map, hsame] at hafter
  exact ⟨_, trimmed, converted, out, htrim, hout, hconvert, hafter⟩

theorem stringToUpper_eq {buffer out : Block UInt8 n} {str : Nat}
    (h : convert toupper buffer str 0 (n + 1 - str) = .ok out) :
    stringToUpper buffer (some str) = .ok (ErrorCode.success.code, out) := by
  rw [stringToUpper, h]
  rfl

theorem stringToLower_eq {buffer out : Block UInt8 n} {str : Nat}
    (h : convert tolower buffer str 0 (n + 1 - str) = .ok out) :
    stringToLower buffer (some str) = .ok (ErrorCode.success.code, out) := by
  rw [stringToLower, h]
  rfl

/-- The two functions stay inside as long as their loops do. -/
theorem strings_inside_iff {buffer : Block UInt8 n} {front s back : List UInt8}
    (hcells : buffer.cells = front ++ (s ++ 0 :: back)) (hzero : 0 ∉ s) :
    ((∃ result, stringToUpper buffer (some front.length) = .ok result) ↔ s.length < 2 ^ 31) ∧
    ((∃ result, stringToLower buffer (some front.length) = .ok result) ↔
      s.length < 2 ^ 31) := by
  refine ⟨Iff.trans ?_ (convert_inside_iff toupper hcells hzero),
    Iff.trans ?_ (convert_inside_iff tolower hcells hzero)⟩
  · constructor
    · rintro ⟨result, hresult⟩
      obtain ⟨out, hout, -⟩ := bind_eq_ok.mp hresult
      exact ⟨out, hout⟩
    · rintro ⟨out, hout⟩
      exact ⟨_, stringToUpper_eq hout⟩
  · constructor
    · rintro ⟨result, hresult⟩
      obtain ⟨out, hout, -⟩ := bind_eq_ok.mp hresult
      exact ⟨out, hout⟩
    · rintro ⟨out, hout⟩
      exact ⟨_, stringToLower_eq hout⟩

/-- **Case conversion.** Each of the two functions stays inside its memory exactly when
    its string has less than `2 ^ 31` bytes. It then converts the bytes of the string and
    leaves everything around it; after one of them, the other does what it would have done
    at once; and trimming before or behind a conversion returns the same pointer and leaves
    the same memory. -/
theorem string_case_correct {buffer : Block UInt8 n} {front s back : List UInt8}
    (hcells : buffer.cells = front ++ (s ++ 0 :: back)) (hzero : 0 ∉ s) :
    (((∃ result, stringToUpper buffer (some front.length) = .ok result) ↔ s.length < 2 ^ 31) ∧
      ((∃ result, stringToLower buffer (some front.length) = .ok result) ↔
        s.length < 2 ^ 31)) ∧
    (s.length < 2 ^ 31 → ∃ upper lower : Block UInt8 n,
      stringToUpper buffer (some front.length) = .ok (ErrorCode.success.code, upper) ∧
      stringToLower buffer (some front.length) = .ok (ErrorCode.success.code, lower) ∧
      upper.cells = front ++ (s.map toupper ++ 0 :: back) ∧
      lower.cells = front ++ (s.map tolower ++ 0 :: back) ∧
      stringToUpper lower (some front.length) = .ok (ErrorCode.success.code, upper) ∧
      stringToLower upper (some front.length) = .ok (ErrorCode.success.code, lower) ∧
      ∃ p trimmed upper' lower', trimWhitespace buffer front.length = .ok (p, trimmed) ∧
        stringToUpper trimmed (some p) = .ok (ErrorCode.success.code, upper') ∧
        stringToLower trimmed (some p) = .ok (ErrorCode.success.code, lower') ∧
        trimWhitespace upper front.length = .ok (p, upper') ∧
        trimWhitespace lower front.length = .ok (p, lower')) := by
  refine ⟨strings_inside_iff hcells hzero, ?_⟩
  intro hshort
  have hmax : s.length ≤ intMax := by
    rw [intMax]
    omega
  have hlen := congrArg List.length hcells
  rw [buffer.size, List.length_append, List.length_append, List.length_cons] at hlen
  obtain ⟨upper, hupper, hupper'⟩ :=
    convert_spec toupper (k := n + 1 - front.length) hcells hzero (by omega) hmax
  obtain ⟨lower, hlower, hlower'⟩ :=
    convert_spec tolower (k := n + 1 - front.length) hcells hzero (by omega) hmax
  -- the second of two conversions finds the string that the first one left
  obtain ⟨upper₁, hagain, hcells₁⟩ := convert_spec toupper
    (k := n + 1 - front.length) hlower' (not_mem_map letterwise_tolower hzero)
    (by rw [List.length_map]; omega) (by rwa [List.length_map])
  obtain ⟨lower₁, hback, hcells₂⟩ := convert_spec tolower
    (k := n + 1 - front.length) hupper' (not_mem_map letterwise_toupper hzero)
    (by rw [List.length_map]; omega) (by rwa [List.length_map])
  have hsame : upper₁ = upper := by
    apply Block.ext
    rw [hcells₁, hupper', List.map_map]
    simp only [Function.comp_def, toupper_tolower]
  have hsame' : lower₁ = lower := by
    apply Block.ext
    rw [hcells₂, hlower', List.map_map]
    simp only [Function.comp_def, tolower_toupper]
  obtain ⟨p, trimmed, converted, upper', htrim, hout, hconverted, hafter⟩ :=
    trim_convert letterwise_toupper hcells hzero hmax
  obtain ⟨p', trimmed', converted', lower', htrim', hout', hconverted', hafter'⟩ :=
    trim_convert letterwise_tolower hcells hzero hmax
  rw [htrim] at htrim'
  cases htrim'
  rw [hupper] at hconverted
  cases hconverted
  rw [hlower] at hconverted'
  cases hconverted'
  rw [hsame] at hagain
  rw [hsame'] at hback
  exact ⟨upper, lower, stringToUpper_eq hupper, stringToLower_eq hlower, hupper', hlower',
    stringToUpper_eq hagain, stringToLower_eq hback, p, trimmed, upper', lower', htrim,
    stringToUpper_eq hout, stringToLower_eq hout', hafter, hafter'⟩

/-- The word `aB` behind a blank. -/
theorem string_case_correct_word :
    (((∃ result, stringToUpper (Block.ofList [32, 97, 66, 0]) (some 0) = .ok result) ↔
        [32, 97, 66].length < 2 ^ 31) ∧
      ((∃ result, stringToLower (Block.ofList [32, 97, 66, 0]) (some 0) = .ok result) ↔
        [32, 97, 66].length < 2 ^ 31)) ∧
    ∃ upper lower : Block UInt8 4,
      stringToUpper (Block.ofList [32, 97, 66, 0]) (some 0) =
        .ok (ErrorCode.success.code, upper) ∧
      stringToLower (Block.ofList [32, 97, 66, 0]) (some 0) =
        .ok (ErrorCode.success.code, lower) ∧
      upper.cells = [] ++ ([32, 97, 66].map toupper ++ 0 :: []) ∧
      lower.cells = [] ++ ([32, 97, 66].map tolower ++ 0 :: []) ∧
      stringToUpper lower (some 0) = .ok (ErrorCode.success.code, upper) ∧
      stringToLower upper (some 0) = .ok (ErrorCode.success.code, lower) ∧
      ∃ p trimmed upper' lower', trimWhitespace (Block.ofList [32, 97, 66, 0]) 0 =
          .ok (p, trimmed) ∧
        stringToUpper trimmed (some p) = .ok (ErrorCode.success.code, upper') ∧
        stringToLower trimmed (some p) = .ok (ErrorCode.success.code, lower') ∧
        trimWhitespace upper 0 = .ok (p, upper') ∧
        trimWhitespace lower 0 = .ok (p, lower') := by
  obtain ⟨hinside, hconverts⟩ := string_case_correct
    (show (Block.ofList [32, 97, 66, 0]).cells = [] ++ ([32, 97, 66] ++ 0 :: []) from rfl)
    (by decide)
  exact ⟨hinside, hconverts (by decide)⟩

end TradeText
