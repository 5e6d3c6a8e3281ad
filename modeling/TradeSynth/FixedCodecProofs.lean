import Mathlib.Logic.Equiv.Defs
import Mathlib.Tactic.Ring
import TradeSynth.CheckedMemoryProofs

/-!
# Fixed-width codecs — the memory image of a C object, as a bijection

A `Codec α` says that the objects of type `α` are exactly the byte strings of one
length: encoding and decoding are mutually inverse there, and both laws are fields.
Little-endian integers and byte arrays are the atoms; `prod` lays two objects side
by side and `map` changes the type along a bijection. The layout of a struct is then
a product of its members in order, padding included, and its round-trip laws come
with the construction.
-/

namespace FixedCodec

open CheckedMemory

variable {α β : Type}

-- ── Little-endian naturals ───────────────────────────────────────────────────

/-- The `w` little-endian bytes of a natural. -/
def toBytes : Nat → Nat → List UInt8
  | 0, _ => []
  | w + 1, v => UInt8.ofNat v :: toBytes w (v / 256)

/-- The natural with the given little-endian bytes. -/
def ofBytes : List UInt8 → Nat
  | [] => 0
  | b :: rest => b.toNat + 256 * ofBytes rest

@[simp] theorem length_toBytes (w v : Nat) : (toBytes w v).length = w := by
  induction w generalizing v with
  | zero => rfl
  | succ w ih => rw [toBytes, List.length_cons, ih]

theorem ofBytes_lt (l : List UInt8) : ofBytes l < 256 ^ l.length := by
  induction l with
  | nil => simp [ofBytes]
  | cons b rest ih =>
      have hb : b.toNat < 256 := b.toNat_lt
      rw [ofBytes, List.length_cons, pow_succ]
      omega

theorem ofBytes_lt_of_length {l : List UInt8} {w : Nat} (h : l.length = w) :
    ofBytes l < 256 ^ w := by
  rw [← h]
  exact ofBytes_lt l

theorem ofBytes_toBytes {w v : Nat} (h : v < 256 ^ w) : ofBytes (toBytes w v) = v := by
  induction w generalizing v with
  | zero =>
      rw [pow_zero] at h
      rw [toBytes, ofBytes]
      omega
  | succ w ih =>
      have hdiv : v / 256 < 256 ^ w := by
        rw [pow_succ] at h
        exact Nat.div_lt_of_lt_mul (by omega)
      have hb : (UInt8.ofNat v).toNat = v % 256 := UInt8.toNat_ofNat'
      rw [toBytes, ofBytes, ih hdiv, hb]
      omega

theorem toBytes_ofBytes (l : List UInt8) : toBytes l.length (ofBytes l) = l := by
  induction l with
  | nil => rfl
  | cons b rest ih =>
      have hb : b.toNat < 256 := b.toNat_lt
      have hdiv : (b.toNat + 256 * ofBytes rest) / 256 = ofBytes rest := by omega
      have hhead : UInt8.ofNat (b.toNat + 256 * ofBytes rest) = b := by
        apply UInt8.toNat_inj.mp
        rw [UInt8.toNat_ofNat']
        omega
      rw [List.length_cons, toBytes, ofBytes, hhead, hdiv, ih]

/-- Replacing byte `i` moves the value by the difference of the two bytes, scaled by
    the weight of the position. -/
theorem ofBytes_set {l : List UInt8} {i : Nat} {old : UInt8} (v : UInt8)
    (h : l[i]? = some old) :
    ofBytes (l.set i v) + 256 ^ i * old.toNat = ofBytes l + 256 ^ i * v.toNat := by
  induction l generalizing i with
  | nil => simp at h
  | cons b rest ih =>
      cases i with
      | zero =>
          have hb : b = old := by simpa using h
          rw [List.set_cons_zero, ofBytes, ofBytes, hb, pow_zero]
          omega
      | succ i =>
          have hrest : rest[i]? = some old := by simpa using h
          have hrec := ih hrest
          rw [List.set_cons_succ, ofBytes, ofBytes, pow_succ]
          calc b.toNat + 256 * ofBytes (rest.set i v) + 256 ^ i * 256 * old.toNat
              = b.toNat + 256 * (ofBytes (rest.set i v) + 256 ^ i * old.toNat) := by ring
            _ = b.toNat + 256 * (ofBytes rest + 256 ^ i * v.toNat) := by rw [hrec]
            _ = b.toNat + 256 * ofBytes rest + 256 ^ i * 256 * v.toNat := by ring

-- ── Codecs ───────────────────────────────────────────────────────────────────

/-- A bijection between a type and the byte strings of one length. -/
structure Codec (α : Type) where
  width : Nat
  encode : α → List UInt8
  decode : List UInt8 → α
  length_encode : ∀ a, (encode a).length = width
  decode_encode : ∀ a, decode (encode a) = a
  encode_decode : ∀ l, l.length = width → encode (decode l) = l

attribute [simp] Codec.length_encode Codec.decode_encode

namespace Codec

/-- Change the type along a bijection. -/
def map (c : Codec α) (e : α ≃ β) : Codec β where
  width := c.width
  encode b := c.encode (e.symm b)
  decode l := e (c.decode l)
  length_encode b := c.length_encode (e.symm b)
  decode_encode b := by rw [c.decode_encode, e.apply_symm_apply]
  encode_decode l h := by rw [e.symm_apply_apply, c.encode_decode l h]

/-- Two objects side by side. -/
def prod (c : Codec α) (d : Codec β) : Codec (α × β) where
  width := c.width + d.width
  encode p := c.encode p.1 ++ d.encode p.2
  decode l := (c.decode (l.take c.width), d.decode (l.drop c.width))
  length_encode p := by rw [List.length_append, c.length_encode, d.length_encode]
  decode_encode p := by
    rw [List.take_left' (c.length_encode p.1), List.drop_left' (c.length_encode p.1),
      c.decode_encode, d.decode_encode]
  encode_decode l h := by
    have htake : (l.take c.width).length = c.width := by rw [List.length_take]; omega
    have hdrop : (l.drop c.width).length = d.width := by rw [List.length_drop]; omega
    rw [c.encode_decode _ htake, d.encode_decode _ hdrop, List.take_append_drop]

/-- An unsigned 32-bit integer. -/
def u32 : Codec UInt32 where
  width := 4
  encode v := toBytes 4 v.toNat
  decode l := UInt32.ofNat (ofBytes l)
  length_encode v := length_toBytes 4 v.toNat
  decode_encode v := by rw [ofBytes_toBytes v.toNat_lt, UInt32.ofNat_toNat]
  encode_decode l h := by
    have hlt : ofBytes l < 2 ^ 32 := ofBytes_lt_of_length h
    rw [UInt32.toNat_ofNat', Nat.mod_eq_of_lt hlt, ← h, toBytes_ofBytes]

/-- An unsigned 64-bit integer. -/
def u64 : Codec UInt64 where
  width := 8
  encode v := toBytes 8 v.toNat
  decode l := UInt64.ofNat (ofBytes l)
  length_encode v := length_toBytes 8 v.toNat
  decode_encode v := by rw [ofBytes_toBytes v.toNat_lt, UInt64.ofNat_toNat]
  encode_decode l h := by
    have hlt : ofBytes l < 2 ^ 64 := ofBytes_lt_of_length h
    rw [UInt64.toNat_ofNat', Nat.mod_eq_of_lt hlt, ← h, toBytes_ofBytes]

/-- A signed 32-bit integer, in two's complement. -/
def i32 : Codec Int32 :=
  u32.map ⟨UInt32.toInt32, Int32.toUInt32, fun _ => rfl, fun _ => rfl⟩

/-- A signed 64-bit integer, in two's complement. -/
def i64 : Codec Int64 :=
  u64.map ⟨UInt64.toInt64, Int64.toUInt64, fun _ => rfl, fun _ => rfl⟩

/-- An array of `n` bytes. -/
def bytes (n : Nat) : Codec (Block UInt8 n) where
  width := n
  encode b := b.cells
  decode l := if h : l.length = n then ⟨l, h⟩ else Block.fill n 0
  length_encode b := b.size
  decode_encode b := by rw [dif_pos b.size]
  encode_decode l h := by rw [dif_pos h]

/-- The value of a 32-bit field, read off its four bytes. -/
theorem u32_decode_toNat {l : List UInt8} (h : l.length = 4) :
    (u32.decode l).toNat = ofBytes l := by
  have hlt : ofBytes l < 2 ^ 32 := ofBytes_lt_of_length h
  show (UInt32.ofNat (ofBytes l)).toNat = ofBytes l
  rw [UInt32.toNat_ofNat', Nat.mod_eq_of_lt hlt]

end Codec

-- ── Fields at an offset ──────────────────────────────────────────────────────

/-- The 32-bit field at an offset of a byte string. -/
def fieldAt (l : List UInt8) (off : Nat) : UInt32 := Codec.u32.decode ((l.drop off).take 4)

/-- The lowest byte of a field is the byte at its offset. -/
theorem fieldAt_mod {l : List UInt8} {off : Nat} {b : UInt8} (hlen : off + 4 ≤ l.length)
    (hb : l[off]? = some b) : (fieldAt l off).toNat % 256 = b.toNat := by
  obtain ⟨hoff, hget⟩ := List.getElem?_eq_some_iff.mp hb
  have hfield : ((l.drop off).take 4).length = 4 := by
    rw [List.length_take, List.length_drop]
    omega
  have hlt : b.toNat < 256 := b.toNat_lt
  rw [fieldAt, Codec.u32_decode_toNat hfield, List.drop_eq_getElem_cons hoff,
    List.take_succ_cons, ofBytes, hget]
  omega

/-- A byte outside a field does not reach it. -/
theorem fieldAt_set_outside (l : List UInt8) {off i : Nat} (v : UInt8)
    (h : i < off ∨ off + 4 ≤ i) : fieldAt (l.set i v) off = fieldAt l off := by
  rw [fieldAt, fieldAt]
  rcases h with hlow | hhigh
  · rw [List.drop_set_of_lt hlow]
  · rw [List.drop_set, if_neg (by omega), List.take_set]
    congr 1
    apply List.set_eq_of_length_le
    rw [List.length_take]
    omega

/-- A byte inside a field moves its value by the difference of the two bytes, scaled
    by the weight of the position. -/
theorem fieldAt_set_toNat {l : List UInt8} {off i : Nat} {old : UInt8} (v : UInt8)
    (hlow : off ≤ i) (hhigh : i < off + 4) (hlen : off + 4 ≤ l.length)
    (hold : l[i]? = some old) :
    (fieldAt (l.set i v) off).toNat + 256 ^ (i - off) * old.toNat =
      (fieldAt l off).toNat + 256 ^ (i - off) * v.toNat := by
  have hfield : ((l.drop off).take 4).length = 4 := by
    rw [List.length_take, List.length_drop]
    omega
  have hget : ((l.drop off).take 4)[i - off]? = some old := by
    rw [List.getElem?_take_of_lt (by omega), List.getElem?_drop,
      show off + (i - off) = i from by omega, hold]
  have hset : ((l.set i v).drop off).take 4 = ((l.drop off).take 4).set (i - off) v := by
    rw [List.drop_set, if_neg (by omega), List.take_set]
  rw [fieldAt, fieldAt]
  rw [hset, Codec.u32_decode_toNat hfield,
    Codec.u32_decode_toNat (by rw [List.length_set, hfield])]
  exact ofBytes_set v hget

/-- A larger byte makes a larger field. -/
theorem fieldAt_lt_set {l : List UInt8} {off i : Nat} {old v : UInt8} (hlow : off ≤ i)
    (hhigh : i < off + 4) (hlen : off + 4 ≤ l.length) (hold : l[i]? = some old)
    (hlt : old.toNat < v.toNat) :
    (fieldAt l off).toNat < (fieldAt (l.set i v) off).toNat := by
  have hset := fieldAt_set_toNat v hlow hhigh hlen hold
  have hw : 256 ^ (i - off) * old.toNat < 256 ^ (i - off) * v.toNat :=
    Nat.mul_lt_mul_of_pos_left hlt (Nat.pow_pos (by omega))
  omega

/-- A smaller byte makes a smaller field. -/
theorem fieldAt_set_lt {l : List UInt8} {off i : Nat} {old v : UInt8} (hlow : off ≤ i)
    (hhigh : i < off + 4) (hlen : off + 4 ≤ l.length) (hold : l[i]? = some old)
    (hlt : v.toNat < old.toNat) :
    (fieldAt (l.set i v) off).toNat < (fieldAt l off).toNat := by
  have hset := fieldAt_set_toNat v hlow hhigh hlen hold
  have hw : 256 ^ (i - off) * v.toNat < 256 ^ (i - off) * old.toNat :=
    Nat.mul_lt_mul_of_pos_left hlt (Nat.pow_pos (by omega))
  omega

/-- A different byte makes a different field. -/
theorem fieldAt_set_ne {l : List UInt8} {off i : Nat} {old v : UInt8} (hlow : off ≤ i)
    (hhigh : i < off + 4) (hlen : off + 4 ≤ l.length) (hold : l[i]? = some old)
    (hne : v ≠ old) : fieldAt (l.set i v) off ≠ fieldAt l off := by
  intro heq
  rcases Nat.lt_trichotomy old.toNat v.toNat with hlt | hsame | hgt
  · have hgrow := fieldAt_lt_set hlow hhigh hlen hold hlt
    rw [heq] at hgrow
    omega
  · exact hne (UInt8.toNat_inj.mp hsame.symm)
  · have hshrink := fieldAt_set_lt hlow hhigh hlen hold hgt
    rw [heq] at hshrink
    omega

-- ── Enumerations ─────────────────────────────────────────────────────────────

/-- An enumeration with the integer code of each enumerator. -/
class Enumeration (ε : Type) where
  all : List ε
  code : ε → UInt32
  complete : ∀ e, e ∈ all
  code_inj : ∀ e e', code e = code e' → e = e'

namespace Enumeration

variable {ε : Type} [Enumeration ε]

/-- The enumerator with a given code, if there is one. -/
def ofCode? (c : UInt32) : Option ε := (all : List ε).find? (fun e => code e == c)

theorem ofCode?_eq_some {c : UInt32} {e : ε} : ofCode? c = some e ↔ code e = c := by
  constructor
  · intro h
    have hp := List.find?_some h
    exact beq_iff_eq.mp hp
  · intro h
    cases hfind : (ofCode? c : Option ε) with
    | none =>
        have hno := List.find?_eq_none.mp hfind e (complete e)
        exact absurd (beq_iff_eq.mpr h) hno
    | some e' =>
        have hp := List.find?_some hfind
        rw [code_inj e' e ((beq_iff_eq.mp hp).trans h.symm)]

end Enumeration

/-- An object of a C enumeration type: one of the enumerators, or an integer that
    names none of them. -/
inductive CEnum (ε : Type) [Enumeration ε] where
  | known (e : ε)
  | unknown (c : UInt32) (h : (Enumeration.ofCode? c : Option ε) = none)

namespace CEnum

open Enumeration

variable {ε : Type} [Enumeration ε]

/-- The integer stored for an object of enumeration type. -/
def toCode : CEnum ε → UInt32
  | known e => code e
  | unknown c _ => c

/-- The object of enumeration type that an integer stands for. -/
def ofCode (c : UInt32) : CEnum ε :=
  match h : (ofCode? c : Option ε) with
  | some e => known e
  | none => unknown c h

theorem toCode_ofCode (c : UInt32) : (ofCode c : CEnum ε).toCode = c := by
  rw [ofCode]
  split
  · rename_i e h
    exact ofCode?_eq_some.mp h
  · rfl

theorem toCode_inj {x y : CEnum ε} (h : x.toCode = y.toCode) : x = y := by
  cases x with
  | known e =>
      cases y with
      | known e' => rw [code_inj e e' h]
      | unknown c hc =>
          have hsome : ofCode? c = some e := ofCode?_eq_some.mpr h
          rw [hsome] at hc
          exact nomatch hc
  | unknown c hc =>
      cases y with
      | known e' =>
          have hsome : ofCode? c = some e' := ofCode?_eq_some.mpr h.symm
          rw [hsome] at hc
          exact nomatch hc
      | unknown c' hc' =>
          cases (h : c = c')
          rfl

theorem ofCode_toCode (x : CEnum ε) : ofCode x.toCode = x :=
  toCode_inj (toCode_ofCode x.toCode)

instance : DecidableEq (CEnum ε) := fun _ _ =>
  decidable_of_iff _ ⟨toCode_inj, congrArg toCode⟩

/-- An enumeration is stored as its integer. -/
def codec (ε : Type) [Enumeration ε] : Codec (CEnum ε) :=
  Codec.u32.map ⟨ofCode, toCode, toCode_ofCode, ofCode_toCode⟩

end CEnum

end FixedCodec
