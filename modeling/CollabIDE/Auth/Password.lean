import CollabIDE.Lib.Base64
import CollabIDE.Lib.Json
import Mathlib.Algebra.GroupWithZero.Nat
/-!
# Password hashes

A hash is stored with the parameters and the salt it was made with, so it is
verified with these, whatever the current ones are.
-/

namespace CollabIDE.Auth.Password

open CollabIDE.Lib

/-- The cost of a hash. -/
structure Params where
  N : Int
  r : Int
  p : Int
  deriving DecidableEq

/-- `scrypt` of `node:crypto`, which throws on parameters it does not take, and what
`Number(text)` is where it is an integer. -/
structure Crypto where
  scrypt : String → List UInt8 → Nat → Params → Except Unit (List UInt8)
  length_scrypt : ∀ {password salt keylen params key},
    scrypt password salt keylen params = .ok key → key.length = keylen
  integer : List Char → Option Int
  integer_toDigits : ∀ n : Nat, integer (Nat.toDigits 10 n) = some (n : Int)

def PREFIX : List Char := "scrypt".toList
def SALT_BYTES : Nat := 16
def KEY_LENGTH : Nat := 64

/-- Current cost. -/
def DEFAULT_N : Nat := 2 ^ 15
def DEFAULT_r : Nat := 8
def DEFAULT_p : Nat := 1

/-- The parts of the stored text. -/
def parts (N r p : Nat) (salt key : List UInt8) : List (List Char) :=
  [PREFIX, Nat.toDigits 10 N, Nat.toDigits 10 r, Nat.toDigits 10 p, Base64.encode salt,
    Base64.encode key]

def encoded (N r p : Nat) (salt key : List UInt8) : List Char :=
  ['$'].intercalate (parts N r p salt key)

variable (C : Crypto)

/-- `hashPassword`, with the salt that `randomBytes` gives. -/
def hashPassword (salt : List UInt8) (password : String) : Except Unit (List Char) :=
  (C.scrypt password salt KEY_LENGTH ⟨DEFAULT_N, DEFAULT_r, DEFAULT_p⟩).map fun key =>
    encoded DEFAULT_N DEFAULT_r DEFAULT_p salt key

/-- What `verifyPassword` does with six parts behind the right tag. -/
def verifyParts (password : String) (n r p salt key : List Char) : Except Unit Bool :=
  let salt := Base64.decode salt
  let expected := Base64.decode key
  match C.integer n, C.integer r, C.integer p with
  | some N, some r, some p =>
    if salt = [] ∨ expected = [] then .ok false
    else (C.scrypt password salt expected.length ⟨N, r, p⟩).map fun actual =>
      decide (actual.length = expected.length ∧ actual = expected)
  | _, _, _ => .ok false

def verifyPassword (password : String) (text : List Char) : Except Unit Bool :=
  match text.splitOn '$' with
  | [tag, n, r, p, salt, key] =>
    if tag ≠ PREFIX then .ok false else verifyParts C password n r p salt key
  | _ => .ok false

/-! ## What was stored verifies -/

theorem dollar_not_mem_digits (n : Nat) : '$' ∉ Nat.toDigits 10 n := fun h =>
  absurd (Nat.isDigit_of_mem_toDigits (by decide) (by decide) h) (by decide)

theorem dollar_not_mem_encode (bytes : List UInt8) : '$' ∉ Base64.encode bytes := by
  intro h
  have hnot : (Base64.pad :: Base64.alphabet).all (fun c => c != '$') = true := by decide
  have hne := List.all_eq_true.mp hnot _ (Base64.mem_encode bytes h)
  exact absurd hne (by decide)

theorem splitOn_encoded (N r p : Nat) (salt key : List UInt8) :
    (encoded N r p salt key).splitOn '$' = parts N r p salt key := by
  refine List.splitOn_intercalate '$' (fun part hpart => ?_) (List.cons_ne_nil _ _)
  simp only [parts, List.mem_cons, List.not_mem_nil, or_false] at hpart
  rcases hpart with rfl | rfl | rfl | rfl | rfl | rfl
  · decide
  · exact dollar_not_mem_digits N
  · exact dollar_not_mem_digits r
  · exact dollar_not_mem_digits p
  · exact dollar_not_mem_encode salt
  · exact dollar_not_mem_encode key

/-- Whatever the parameters were, a password verifies just when it has the key that is stored. -/
theorem verifyPassword_encoded {N r p : Nat} {salt key : List UInt8} (hsalt : salt ≠ [])
    (hkey : key ≠ []) (password : String) :
    verifyPassword C password (encoded N r p salt key) =
      (C.scrypt password salt key.length ⟨N, r, p⟩).map fun actual => decide (actual = key) := by
  rw [verifyPassword, splitOn_encoded]
  simp only [parts, verifyParts, Base64.decode_encode, C.integer_toDigits, ne_eq, not_true,
    if_false, hsalt, hkey, or_self]
  cases hactual : C.scrypt password salt key.length ⟨N, r, p⟩ with
  | error e => rfl
  | ok actual =>
      have hlength := C.length_scrypt hactual
      simp only [Except.map, hlength, true_and]

theorem verifyPassword_hashPassword {salt : List UInt8} {password : String} {text : List Char}
    (hsalt : salt ≠ []) (h : hashPassword C salt password = .ok text) :
    ∃ key, C.scrypt password salt KEY_LENGTH ⟨DEFAULT_N, DEFAULT_r, DEFAULT_p⟩ = .ok key ∧
      text = encoded DEFAULT_N DEFAULT_r DEFAULT_p salt key ∧
      ∀ other, verifyPassword C other text =
        (C.scrypt other salt KEY_LENGTH ⟨DEFAULT_N, DEFAULT_r, DEFAULT_p⟩).map fun actual =>
          decide (actual = key) := by
  unfold hashPassword at h
  cases hkey : C.scrypt password salt KEY_LENGTH ⟨DEFAULT_N, DEFAULT_r, DEFAULT_p⟩ with
  | error e =>
      rw [hkey] at h
      cases h
  | ok key =>
      rw [hkey] at h
      obtain rfl := Except.ok.inj h
      have hlength : key.length = KEY_LENGTH := C.length_scrypt hkey
      have hne : key ≠ [] := by
        rintro rfl
        exact absurd hlength (by decide)
      refine ⟨key, rfl, rfl, fun other => ?_⟩
      rw [verifyPassword_encoded C hsalt hne, hlength]

end CollabIDE.Auth.Password
