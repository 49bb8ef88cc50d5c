import Mathlib.Data.List.Basic
/-!
# Base 64

Three bytes are four digits of six bits, and one or two bytes at the end are
filled up with `=`.  Reading ends at the first `=`, skips what is no digit and takes
the alphabet of URLs as well; what was written is read back.
-/

namespace CollabIDE.Lib.Base64

def alphabet : List Char :=
  "ABCDEFGHIJKLMNOPQRSTUVWXYZabcdefghijklmnopqrstuvwxyz0123456789+/".toList

def pad : Char := '='

/-- The digit of a value below 64. -/
def digit (n : Nat) : Char := alphabet.getD n pad

def encode : List UInt8 → List Char
  | [] => []
  | [a] => [digit (a.toNat / 4), digit (a.toNat % 4 * 16), pad, pad]
  | [a, b] =>
    [digit (a.toNat / 4), digit (a.toNat % 4 * 16 + b.toNat / 16), digit (b.toNat % 16 * 4), pad]
  | a :: b :: c :: bytes =>
    digit (a.toNat / 4) :: digit (a.toNat % 4 * 16 + b.toNat / 16) ::
      digit (b.toNat % 16 * 4 + c.toNat / 64) :: digit (c.toNat % 64) :: encode bytes

/-- The value of a digit of either alphabet. -/
def value (c : Char) : Option Nat :=
  if c = '-' then some 62
  else if c = '_' then some 63
  else alphabet.findIdx? (· == c)

/-- Six bits at a time; a single digit at the end is no byte. -/
def join : List Nat → List UInt8
  | p :: q :: r :: s :: values =>
    UInt8.ofNat (p * 4 + q / 16) :: UInt8.ofNat (q % 16 * 16 + r / 4) ::
      UInt8.ofNat (r % 4 * 64 + s) :: join values
  | [p, q, r] => [UInt8.ofNat (p * 4 + q / 16), UInt8.ofNat (q % 16 * 16 + r / 4)]
  | [p, q] => [UInt8.ofNat (p * 4 + q / 16)]
  | _ => []

/-- The values of the digits before the filling. -/
def read (text : List Char) : List Nat := (text.takeWhile (· ≠ pad)).filterMap value

def decode (text : List Char) : List UInt8 := join (read text)

theorem value_digit {n : Nat} (hn : n < 64) : value (digit n) = some n := by
  have hall : (List.range 64).all (fun k => value (digit k) == some k) = true := by decide +kernel
  exact eq_of_beq (List.all_eq_true.mp hall n (List.mem_range.mpr hn))

theorem digit_ne_pad {n : Nat} (hn : n < 64) : digit n ≠ pad := by
  intro h
  have hvalue := value_digit hn
  have hpad : value pad = none := by decide
  rw [h, hpad] at hvalue
  cases hvalue

@[simp] theorem read_pad (text : List Char) : read (pad :: text) = [] := rfl

@[simp] theorem read_digit {n : Nat} (hn : n < 64) (text : List Char) :
    read (digit n :: text) = n :: read text := by
  rw [read, List.takeWhile_cons_of_pos (by simpa using digit_ne_pad hn),
    List.filterMap_cons_some (value_digit hn), read]

theorem ofNat_eq {n : Nat} {a : UInt8} (h : n = a.toNat) : UInt8.ofNat n = a := by
  rw [h, UInt8.ofNat_toNat]

theorem decode_encode : (bytes : List UInt8) → decode (encode bytes) = bytes
  | [] => rfl
  | [a] => by
      have ha := a.toNat_lt
      rw [decode, encode, read_digit (by omega), read_digit (by omega), read_pad, join,
        ofNat_eq (a := a) (by omega)]
  | [a, b] => by
      have ha := a.toNat_lt
      have hb := b.toNat_lt
      rw [decode, encode, read_digit (by omega), read_digit (by omega), read_digit (by omega),
        read_pad, join, ofNat_eq (a := a) (by omega), ofNat_eq (a := b) (by omega)]
  | a :: b :: c :: bytes => by
      have ha := a.toNat_lt
      have hb := b.toNat_lt
      have hc := c.toNat_lt
      have hrest := decode_encode bytes
      rw [decode] at hrest ⊢
      rw [encode, read_digit (by omega), read_digit (by omega), read_digit (by omega),
        read_digit (by omega), join, hrest, ofNat_eq (a := a) (by omega),
        ofNat_eq (a := b) (by omega), ofNat_eq (a := c) (by omega)]

theorem digit_mem (n : Nat) : digit n ∈ pad :: alphabet := by
  unfold digit
  rw [List.getD_eq_getElem?_getD]
  cases h : alphabet[n]? with
  | none => exact List.mem_cons_self
  | some c => exact List.mem_cons_of_mem pad (List.mem_of_getElem? h)

/-- Only digits and the filling are written. -/
theorem mem_encode {c : Char} : (bytes : List UInt8) → c ∈ encode bytes → c ∈ pad :: alphabet
  | [], h => absurd h List.not_mem_nil
  | [a], h => by
      simp only [encode, List.mem_cons, List.not_mem_nil, or_false] at h
      rcases h with rfl | rfl | rfl | rfl
      · exact digit_mem _
      · exact digit_mem _
      · exact List.mem_cons_self
      · exact List.mem_cons_self
  | [a, b], h => by
      simp only [encode, List.mem_cons, List.not_mem_nil, or_false] at h
      rcases h with rfl | rfl | rfl | rfl
      · exact digit_mem _
      · exact digit_mem _
      · exact digit_mem _
      · exact List.mem_cons_self
  | a :: b :: d :: bytes, h => by
      simp only [encode, List.mem_cons] at h
      rcases h with rfl | rfl | rfl | rfl | h
      · exact digit_mem _
      · exact digit_mem _
      · exact digit_mem _
      · exact digit_mem _
      · exact mem_encode bytes h

end CollabIDE.Lib.Base64
