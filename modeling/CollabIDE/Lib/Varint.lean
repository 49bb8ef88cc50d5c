import Mathlib.Data.List.Basic
/-!
# Base-128 numbers and counted bytes

A number is written seven bits at a time, the low ones first, with the high bit
of a byte set while more follow; a run of bytes is written with its length
before it, a string as the bytes of its UTF-8.  What was written is read back,
whatever follows it.
-/

namespace CollabIDE.Lib.Varint

/-- With fuel for every digit of `n`. -/
def writeDigits : Nat → Nat → List UInt8
  | 0, n => [UInt8.ofNat n]
  | fuel + 1, n =>
    if n < 128 then [UInt8.ofNat n]
    else UInt8.ofNat (n % 128 + 128) :: writeDigits fuel (n / 128)

def writeNat (n : Nat) : List UInt8 := writeDigits n n

def readNat : List UInt8 → Option (Nat × List UInt8)
  | [] => none
  | b :: bs =>
    if b.toNat < 128 then some (b.toNat, bs)
    else (readNat bs).map fun read => (b.toNat - 128 + 128 * read.1, read.2)

def writeBytes (bytes : List UInt8) : List UInt8 := writeNat bytes.length ++ bytes

def readBytes (bytes : List UInt8) : Option (List UInt8 × List UInt8) :=
  match readNat bytes with
  | none => none
  | some (length, rest) => if length ≤ rest.length then some (rest.splitAt length) else none

def writeString (s : String) : List UInt8 := writeBytes s.toByteArray.data.toList

def readString (bytes : List UInt8) : Option (String × List UInt8) :=
  match readBytes bytes with
  | none => none
  | some (encoded, rest) => (String.fromUTF8? encoded.toByteArray).map fun s => (s, rest)

theorem readNat_last {n : Nat} (hn : n < 128) (rest : List UInt8) :
    readNat (UInt8.ofNat n :: rest) = some (n, rest) := by
  have hbyte : (UInt8.ofNat n).toNat = n := by
    rw [UInt8.toNat_ofNat']
    omega
  simp only [readNat, hbyte, if_pos hn]

theorem readNat_writeDigits {fuel n : Nat} (hfuel : n ≤ fuel) (rest : List UInt8) :
    readNat (writeDigits fuel n ++ rest) = some (n, rest) := by
  induction fuel generalizing n with
  | zero =>
      obtain rfl : n = 0 := Nat.le_zero.mp hfuel
      exact readNat_last (by decide) rest
  | succ fuel ih =>
      by_cases hn : n < 128
      · rw [writeDigits, if_pos hn]
        exact readNat_last hn rest
      · have hbyte : (UInt8.ofNat (n % 128 + 128)).toNat = n % 128 + 128 := by
          rw [UInt8.toNat_ofNat']
          omega
        have hmore : ¬ n % 128 + 128 < 128 := by omega
        have hdigits : n % 128 + 128 - 128 + 128 * (n / 128) = n := by omega
        rw [writeDigits, if_neg hn, List.cons_append, readNat, hbyte, if_neg hmore,
          ih (by omega), Option.map_some, hdigits]

theorem readNat_writeNat (n : Nat) (rest : List UInt8) :
    readNat (writeNat n ++ rest) = some (n, rest) := readNat_writeDigits (Nat.le_refl n) rest

theorem readBytes_writeBytes (bytes rest : List UInt8) :
    readBytes (writeBytes bytes ++ rest) = some (bytes, rest) := by
  have hlength : bytes.length ≤ (bytes ++ rest).length := by simp
  rw [writeBytes, List.append_assoc, readBytes, readNat_writeNat]
  simp only [if_pos hlength, List.splitAt_eq, List.take_left', List.drop_left']

theorem readString_writeString (s : String) (rest : List UInt8) :
    readString (writeString s ++ rest) = some (s, rest) := by
  have hbytes : s.toByteArray.data.toList.toByteArray = s.toByteArray :=
    ByteArray.ext (by simp)
  rw [writeString, readString, readBytes_writeBytes]
  simp only [hbytes, String.fromUTF8?, s.isValidUTF8, dif_pos]
  rfl

end CollabIDE.Lib.Varint
