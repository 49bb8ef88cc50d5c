import CollabIDE.Files.Paths
/-!
# One cookie out of a raw header

`readCookie` of the WebSocket door, with `decodeURIComponent`.  A header value
is a string of Latin-1 characters; nothing has checked it.
-/

namespace CollabIDE.Http.Cookies

open CollabIDE.Files.Paths

/-! ## decodeURIComponent -/

def hexDigit (c : Char) : Option Nat :=
  if '0' ≤ c ∧ c ≤ '9' then some (c.toNat - '0'.toNat)
  else if 'a' ≤ c ∧ c ≤ 'f' then some (c.toNat - 'a'.toNat + 10)
  else if 'A' ≤ c ∧ c ≤ 'F' then some (c.toNat - 'A'.toNat + 10)
  else none

def hexOctet (high low : Char) : Option Nat := do
  let h ← hexDigit high
  let l ← hexDigit low
  some (16 * h + l)

/-- How many octets the UTF-8 sequence has that starts with this one. -/
def sequenceLength (octet : Nat) : Option Nat :=
  if octet < 0x80 then some 1
  else if octet < 0xc0 then none
  else if octet < 0xe0 then some 2
  else if octet < 0xf0 then some 3
  else if octet < 0xf8 then some 4
  else none

/-- The code point of a UTF-8 sequence; `none` for an octet that does not
continue it, an overlong form, a surrogate or a value past the last code
point. -/
def decodeUtf8 : List Nat → Option Char
  | [] => none
  | first :: rest =>
    let bits := [0x80, 0x20, 0x10, 0x08].getD rest.length 0
    let smallest := [0, 0x80, 0x800, 0x10000].getD rest.length 0
    let codePoint := rest.foldl (fun value octet => 64 * value + octet % 64) (first % bits)
    if rest.all (fun octet => octet / 64 = 2) ∧ smallest ≤ codePoint ∧ codePoint.isValidChar then
      some (Char.ofNat codePoint)
    else none

/-- The octets of `count` escapes, and what follows them. -/
def readEscapes : Nat → List Char → Option (List Nat × List Char)
  | 0, text => some ([], text)
  | count + 1, '%' :: high :: low :: text => do
    let octet ← hexOctet high low
    let (octets, rest) ← readEscapes count text
    some (octet :: octets, rest)
  | _ + 1, _ => none

/-- The sequence of escapes at the front. -/
def readSequence (text : List Char) : Option (Char × List Char) := do
  let (octets, _) ← readEscapes 1 text
  let count ← sequenceLength (octets.headD 0)
  let (octets, rest) ← readEscapes count text
  let c ← decodeUtf8 octets
  some (c, rest)

/-- At most `fuel` characters; the length of the text is enough. -/
def decode : Nat → List Char → Option (List Char)
  | _, [] => some []
  | 0, _ :: _ => none
  | fuel + 1, c :: text =>
    if c = '%' then do
      let (decoded, rest) ← readSequence (c :: text)
      (decode fuel rest).map (decoded :: ·)
    else (decode fuel text).map (c :: ·)

/-- `decodeURIComponent`; `none` where it throws a `URIError`. -/
def decodeURIComponent (text : String) : Option String :=
  (decode text.toList.length text.toList).map String.ofList

example : decodeURIComponent "a%20%C3%A9%E2%82%AC" = some "a é€" := by decide

example : decodeURIComponent "%" = none ∧ decodeURIComponent "%C3%28" = none ∧
    decodeURIComponent "%C0%AF" = none := by decide

/-! ## readCookie -/

/-- `part.slice(0, separator)` and `part.slice(separator + 1)`, trimmed, for the
first `=`. -/
def separate (part : List Char) : Option (String × String) :=
  match part.dropWhile (· ≠ '=') with
  | [] => none
  | _ :: value =>
    some (trim (String.ofList (part.takeWhile (· ≠ '='))), trim (String.ofList value))

/-- An exception, or a rejection: what is thrown, as it prints. -/
abbrev Thrown := String

/-- The loop over the parts of the header. -/
def readParts (name : String) : List (List Char) → Except Thrown (Option String)
  | [] => .ok none
  | part :: parts =>
    match separate part with
    | none => readParts name parts
    | some (key, value) =>
      if key = name then
        match decodeURIComponent value with
        | some decoded => .ok (some decoded)
        | none => .error "URIError: URI malformed"
      else readParts name parts

def readCookie (header : Option String) (name : String) : Except Thrown (Option String) :=
  match header with
  | none => .ok none
  | some header => readParts name (header.toList.splitOn ';')

/-- The value of the first cookie of this name, as it was sent. -/
def rawCookie (header : Option String) (name : String) : Option String :=
  header.bind fun header => (header.toList.splitOn ';').findSome? fun part =>
    match separate part with
    | some (key, value) => if key = name then some value else none
    | none => none

/-- Only the value of the cookie it looks for can make it throw. -/
theorem readCookie_eq (header : Option String) (name : String) :
    readCookie header name =
      match rawCookie header name with
      | none => .ok none
      | some raw =>
        match decodeURIComponent raw with
        | some decoded => .ok (some decoded)
        | none => .error "URIError: URI malformed" := by
  cases header with
  | none => rfl
  | some header =>
      simp only [readCookie, rawCookie, Option.bind_some]
      induction header.toList.splitOn ';' with
      | nil => rfl
      | cons part parts ih =>
          rw [readParts, List.findSome?_cons]
          rcases separate part with - | ⟨key, value⟩
          · exact ih
          · by_cases hkey : key = name
            · simp only [if_pos hkey]
            · simp only [if_neg hkey]
              exact ih

end CollabIDE.Http.Cookies
