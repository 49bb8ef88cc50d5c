import Mathlib.Data.List.Basic
/-!
# JSON texts

Values, the text that is written for one, and a reader of texts.  A number is an
integer: fractions and exponents are not read.  A string is of characters, so
that half of a surrogate pair is not read either.  An object has its fields in
the order of the text.
-/

namespace CollabIDE.Lib.Json

inductive Value
  | null
  | bool (value : Bool)
  | int (value : Int)
  | str (value : String)
  | arr (items : List Value)
  | obj (fields : List (String × Value))

def mark : Char := '\x22'
def backslash : Char := '\x5c'

/-! ## Writing -/

/-- The escapes of two characters, by what they stand for. -/
def shorts : List (Char × Char) :=
  [(mark, mark), (backslash, backslash), ('\x08', 'b'), ('\x09', 't'), ('\x0a', 'n'),
    ('\x0c', 'f'), ('\x0d', 'r')]

def escape (c : Char) : List Char :=
  match shorts.lookup c with
  | some e => [backslash, e]
  | none =>
    if c.toNat < 0x20 then
      [backslash, 'u', '0', '0', Nat.digitChar (c.toNat / 16), Nat.digitChar (c.toNat % 16)]
    else [c]

def quote (s : String) : List Char := mark :: (s.toList.flatMap escape ++ [mark])

mutual

def stringify : Value → List Char
  | .null => "null".toList
  | .bool true => "true".toList
  | .bool false => "false".toList
  | .int n => (toString n).toList
  | .str s => quote s
  | .arr items => '[' :: (stringifyItems items ++ [']'])
  | .obj fields => '\x7b' :: (stringifyFields fields ++ ['\x7d'])

def stringifyItems : List Value → List Char
  | [] => []
  | [v] => stringify v
  | v :: w :: items => stringify v ++ ',' :: stringifyItems (w :: items)

def stringifyFields : List (String × Value) → List Char
  | [] => []
  | [(k, v)] => quote k ++ ':' :: stringify v
  | (k, v) :: field :: fields =>
    quote k ++ ':' :: (stringify v ++ ',' :: stringifyFields (field :: fields))

end

theorem stringify_str (s : String) : stringify (.str s) = quote s := rfl

theorem stringify_obj (fields : List (String × Value)) :
    stringify (.obj fields) = '\x7b' :: (stringifyFields fields ++ ['\x7d']) := rfl

/-! ## Reading -/

def isBlank (c : Char) : Bool := c ∈ [' ', '\x09', '\x0a', '\x0d']

def skip (cs : List Char) : List Char := cs.dropWhile isBlank

def hexValue (c : Char) : Option Nat :=
  if c.isDigit then some (c.toNat - 0x30)
  else if 'a' ≤ c ∧ c ≤ 'f' then some (c.toNat - 0x57)
  else if 'A' ≤ c ∧ c ≤ 'F' then some (c.toNat - 0x37)
  else none

/-- A unit of UTF-16 in four digits. -/
def readUnit : List Char → Option (Nat × List Char)
  | a :: b :: c :: d :: rest => do
    let a ← hexValue a
    let b ← hexValue b
    let c ← hexValue c
    let d ← hexValue d
    some (a * 0x1000 + b * 0x100 + c * 0x10 + d, rest)
  | _ => none

/-- The low half of a surrogate pair. -/
def readLow : List Char → Option (Nat × List Char)
  | c :: 'u' :: rest =>
    if c = backslash then (readUnit rest).filter fun low => 0xdc00 ≤ low.1 ∧ low.1 < 0xe000
    else none
  | _ => none

def readUnicode (cs : List Char) : Option (Char × List Char) :=
  (readUnit cs).bind fun unit =>
    if 0xd800 ≤ unit.1 ∧ unit.1 < 0xdc00 then
      (readLow unit.2).map fun low =>
        (Char.ofNat (0x10000 + (unit.1 - 0xd800) * 0x400 + (low.1 - 0xdc00)), low.2)
    else if 0xdc00 ≤ unit.1 ∧ unit.1 < 0xe000 then none
    else some (Char.ofNat unit.1, unit.2)

/-- What stands behind a backslash. -/
def readEscape : List Char → Option (Char × List Char)
  | [] => none
  | e :: rest =>
    if e = 'u' then readUnicode rest
    else if e = '/' then some ('/', rest)
    else (shorts.find? fun short => short.2 = e).map fun short => (short.1, rest)

/-- A string from behind its opening mark. -/
def readChars : Nat → List Char → Option (List Char × List Char)
  | 0, _ | _, [] => none
  | fuel + 1, c :: rest =>
    if c = mark then some ([], rest)
    else if c = backslash then
      (readEscape rest).bind fun e =>
        (readChars fuel e.2).map fun chars => (e.1 :: chars.1, chars.2)
    else if c.toNat < 0x20 then none
    else (readChars fuel rest).map fun chars => (c :: chars.1, chars.2)

def readString (cs : List Char) : Option (String × List Char) :=
  (readChars cs.length cs).map fun chars => (String.ofList chars.1, chars.2)

/-- Digits without a zero in front. -/
def readNat (cs : List Char) : Option (Nat × List Char) :=
  let digits := cs.takeWhile Char.isDigit
  if digits = [] ∨ (digits.head? = some '0' ∧ digits ≠ ['0']) then none
  else some (Nat.ofDigitChars 10 digits 0, cs.dropWhile Char.isDigit)

def readInt : List Char → Option (Int × List Char)
  | '-' :: rest => (readNat rest).map fun n => (-n.1, n.2)
  | cs => (readNat cs).map fun n => (n.1, n.2)

def readWord (word : String) (v : Value) (cs : List Char) : Option (Value × List Char) :=
  if word.toList <+: cs then some (v, cs.drop word.length) else none

mutual

def readValue : Nat → List Char → Option (Value × List Char)
  | 0, _ => none
  | fuel + 1, cs =>
    match skip cs with
    | [] => none
    | c :: rest =>
      if c = '-' ∨ c.isDigit then (readInt (c :: rest)).map fun n => (.int n.1, n.2)
      else if c = mark then (readString rest).map fun s => (.str s.1, s.2)
      else if c = '[' then
        if (skip rest).head? = some ']' then some (.arr [], (skip rest).tail)
        else (readItems fuel rest).map fun items => (.arr items.1, items.2)
      else if c = '\x7b' then
        if (skip rest).head? = some '\x7d' then some (.obj [], (skip rest).tail)
        else (readFields fuel rest).map fun fields => (.obj fields.1, fields.2)
      else
        (readWord "null" .null (c :: rest)).or <| (readWord "true" (.bool true) (c :: rest)).or <|
          readWord "false" (.bool false) (c :: rest)

/-- Items, to the closing bracket. -/
def readItems : Nat → List Char → Option (List Value × List Char)
  | 0, _ => none
  | fuel + 1, cs =>
    (readValue fuel cs).bind fun v =>
      match skip v.2 with
      | ',' :: rest => (readItems fuel rest).map fun items => (v.1 :: items.1, items.2)
      | ']' :: rest => some ([v.1], rest)
      | _ => none

/-- Fields, to the closing brace. -/
def readFields : Nat → List Char → Option (List (String × Value) × List Char)
  | 0, _ => none
  | fuel + 1, cs =>
    match skip cs with
    | [] => none
    | c :: rest =>
      if c = mark then
        (readString rest).bind fun k =>
          match skip k.2 with
          | ':' :: rest =>
            (readValue fuel rest).bind fun v =>
              match skip v.2 with
              | ',' :: rest =>
                (readFields fuel rest).map fun fields => ((k.1, v.1) :: fields.1, fields.2)
              | '\x7d' :: rest => some ([(k.1, v.1)], rest)
              | _ => none
          | _ => none
      else none

end

/-- A text of one value and nothing else. -/
def parse (text : List Char) : Option Value :=
  (readValue (2 * text.length + 1) text).bind fun v => if skip v.2 = [] then some v.1 else none

/-! ## Strings -/

theorem escape_cases (c : Char) :
    (∃ e, (c, e) ∈ shorts ∧ escape c = [backslash, e]) ∨
    (c.toNat < 0x20 ∧ escape c =
      [backslash, 'u', '0', '0', Nat.digitChar (c.toNat / 16), Nat.digitChar (c.toNat % 16)]) ∨
    (c ≠ mark ∧ c ≠ backslash ∧ 0x20 ≤ c.toNat ∧ escape c = [c]) := by
  unfold escape
  cases hshort : shorts.lookup c with
  | some e =>
      left
      obtain ⟨front, back, heq, -⟩ := List.lookup_eq_some_iff.mp hshort
      refine ⟨e, ?_, rfl⟩
      rw [heq]
      exact List.mem_append_right _ List.mem_cons_self
  | none =>
      right
      dsimp only
      by_cases hlow : c.toNat < 0x20
      · left
        exact ⟨hlow, if_pos hlow⟩
      · right
        refine ⟨?_, ?_, by omega, if_neg hlow⟩
        · rintro rfl
          cases hshort
        · rintro rfl
          cases hshort

theorem readEscape_short {c e : Char} (h : (c, e) ∈ shorts) (rest : List Char) :
    readEscape (e :: rest) = some (c, rest) := by
  have hall : ∀ short ∈ shorts, short.2 ≠ 'u' ∧ short.2 ≠ '/' ∧
      shorts.find? (fun other => other.2 = short.2) = some short := by decide
  obtain ⟨hu, hslash, hfind⟩ := hall _ h
  rw [readEscape, if_neg hu, if_neg hslash, hfind, Option.map_some]

theorem hexValue_digitChar {d : Nat} (hd : d < 16) : hexValue (Nat.digitChar d) = some d := by
  have hall : ∀ d < 16, hexValue (Nat.digitChar d) = some d := by decide
  exact hall d hd

theorem readEscape_unicode {c : Char} (h : c.toNat < 0x20) (rest : List Char) :
    readEscape ('u' :: '0' :: '0' :: Nat.digitChar (c.toNat / 16) ::
      Nat.digitChar (c.toNat % 16) :: rest) = some (c, rest) := by
  have hunit : readUnit ('0' :: '0' :: Nat.digitChar (c.toNat / 16) ::
      Nat.digitChar (c.toNat % 16) :: rest) = some (c.toNat, rest) := by
    have hzero : hexValue '0' = some 0 := by decide
    have hsum : 0 * 0x1000 + 0 * 0x100 + c.toNat / 16 * 0x10 + c.toNat % 16 = c.toNat := by omega
    rw [readUnit, hzero, hexValue_digitChar (by omega), hexValue_digitChar (by omega)]
    change some (_, rest) = _
    rw [hsum]
  rw [readEscape, if_pos rfl, readUnicode, hunit, Option.bind_some, if_neg (by dsimp only; omega),
    if_neg (by dsimp only; omega)]
  dsimp only
  rw [Char.ofNat_toNat]

theorem readChars_escape (c : Char) (fuel : Nat) (rest : List Char) :
    readChars (fuel + 1) (escape c ++ rest) =
      (readChars fuel rest).map fun chars => (c :: chars.1, chars.2) := by
  have hne : backslash ≠ mark := by decide
  rcases escape_cases c with ⟨e, he, hescape⟩ | ⟨hlow, hescape⟩ | ⟨hmark, hback, hhigh, hescape⟩
  · rw [hescape, List.cons_append, List.cons_append, List.nil_append, readChars, if_neg hne,
      if_pos rfl, readEscape_short he, Option.bind_some]
  · rw [hescape]
    simp only [List.cons_append, List.nil_append]
    rw [readChars, if_neg hne, if_pos rfl, readEscape_unicode hlow, Option.bind_some]
  · rw [hescape, List.cons_append, List.nil_append, readChars, if_neg hmark, if_neg hback,
      if_neg (by omega)]

theorem readChars_quoted (cs rest : List Char) {fuel : Nat} (hfuel : cs.length < fuel) :
    readChars fuel (cs.flatMap escape ++ mark :: rest) = some (cs, rest) := by
  induction cs generalizing fuel with
  | nil =>
      obtain ⟨fuel, rfl⟩ : ∃ n, fuel = n + 1 := ⟨fuel - 1, by simp at hfuel; omega⟩
      rw [List.flatMap_nil, List.nil_append, readChars, if_pos rfl]
  | cons c cs ih =>
      obtain ⟨fuel, rfl⟩ : ∃ n, fuel = n + 1 := ⟨fuel - 1, by simp at hfuel; omega⟩
      have hrest : cs.length < fuel := by simpa using hfuel
      rw [List.flatMap_cons, List.append_assoc, readChars_escape, ih hrest, Option.map_some]

theorem length_escape_pos (c : Char) : 0 < (escape c).length := by
  rcases escape_cases c with ⟨e, -, h⟩ | ⟨-, h⟩ | ⟨-, -, -, h⟩ <;> simp [h]

theorem length_le_flatMap_escape (cs : List Char) : cs.length ≤ (cs.flatMap escape).length := by
  induction cs with
  | nil => simp
  | cons c cs ih =>
      have hpos := length_escape_pos c
      rw [List.flatMap_cons, List.length_append, List.length_cons]
      omega

theorem readString_quote (s : String) (rest : List Char) :
    readString (s.toList.flatMap escape ++ mark :: rest) = some (s, rest) := by
  have hlength := length_le_flatMap_escape s.toList
  rw [readString, readChars_quoted, Option.map_some, String.ofList_toList]
  rw [List.length_append, List.length_cons]
  omega

/-! ## Numbers -/

/-- A text that does not go on with a digit. -/
def Ends (rest : List Char) : Prop := ∀ c, rest.head? = some c → c.isDigit = false

theorem ends_nil : Ends [] := fun _ h => absurd h (Option.some_ne_none _).symm

theorem ends_cons {c : Char} (hc : c.isDigit = false) (rest : List Char) : Ends (c :: rest) := by
  intro d hd
  rw [← Option.some.inj hd]
  exact hc

theorem takeWhile_digits {digits rest : List Char} (hdigits : ∀ c ∈ digits, c.isDigit = true)
    (hends : Ends rest) : (digits ++ rest).takeWhile Char.isDigit = digits := by
  rw [List.takeWhile_append_of_pos hdigits]
  cases rest with
  | nil => simp
  | cons c rest => simp [hends c rfl]

theorem dropWhile_digits {digits rest : List Char} (hdigits : ∀ c ∈ digits, c.isDigit = true)
    (hends : Ends rest) : (digits ++ rest).dropWhile Char.isDigit = rest := by
  rw [List.dropWhile_append_of_pos hdigits]
  cases rest with
  | nil => simp
  | cons c rest => simp [hends c rfl]

theorem head_toDigits {n : Nat} (hn : 0 < n) : (Nat.toDigits 10 n).head? ≠ some '0' := by
  induction n using Nat.strongRecOn with
  | ind n ih =>
      by_cases hlt : n < 10
      · have hall : ∀ n < 10, 0 < n → [Nat.digitChar n].head? ≠ some '0' := by decide
        rw [Nat.toDigits_of_lt_base hlt]
        exact hall n hlt hn
      · have hne : Nat.toDigits 10 (n / 10) ≠ [] := Nat.toDigits_ne_nil
        rw [Nat.toDigits_of_base_le (by omega) (by omega), List.head?_append_of_ne_nil _ hne]
        exact ih (n / 10) (by omega) (by omega)

theorem readNat_toDigits (n : Nat) {rest : List Char} (hends : Ends rest) :
    readNat (Nat.toDigits 10 n ++ rest) = some (n, rest) := by
  have hdigits : ∀ c ∈ Nat.toDigits 10 n, c.isDigit = true := fun c hc =>
    Nat.isDigit_of_mem_toDigits (by omega) (by omega) hc
  have hfront : ¬((Nat.toDigits 10 n).head? = some '0' ∧ Nat.toDigits 10 n ≠ ['0']) := by
    rintro ⟨hhead, hne⟩
    rcases Nat.eq_zero_or_pos n with rfl | hpos
    · exact hne (Nat.toDigits_zero 10)
    · exact head_toDigits hpos hhead
  have hor := not_or.mpr ⟨@Nat.toDigits_ne_nil n 10, hfront⟩
  rw [readNat, takeWhile_digits hdigits hends, dropWhile_digits hdigits hends, if_neg hor,
    Nat.ofDigitChars_toDigits (by omega) (by omega)]

theorem toDigits_eq_cons (n : Nat) :
    ∃ c cs, Nat.toDigits 10 n = c :: cs ∧ c.isDigit = true := by
  obtain ⟨c, cs, hcons⟩ := List.exists_cons_of_ne_nil (@Nat.toDigits_ne_nil n 10)
  refine ⟨c, cs, hcons, Nat.isDigit_of_mem_toDigits (b := 10) (n := n) (by omega) (by omega) ?_⟩
  rw [hcons]
  exact List.mem_cons_self

theorem toList_toString_int (n : Int) :
    (toString n).toList =
      if 0 ≤ n then Nat.toDigits 10 n.toNat else '-' :: Nat.toDigits 10 (-n).toNat := by
  rw [Int.toString_eq_repr, Int.repr_eq_if]
  split
  · exact Nat.toList_repr
  · rw [String.toList_append, Nat.toList_repr]
    rfl

theorem readInt_toString (n : Int) {rest : List Char} (hends : Ends rest) :
    readInt ((toString n).toList ++ rest) = some (n, rest) := by
  rw [toList_toString_int]
  split
  · next hnonneg =>
      have hread := readNat_toDigits n.toNat hends
      obtain ⟨c, cs, hcons, hdigit⟩ := toDigits_eq_cons n.toNat
      have hminus : c ≠ '-' := by
        rintro rfl
        exact absurd hdigit (by decide)
      rw [hcons, List.cons_append] at hread ⊢
      rw [readInt, hread, Option.map_some, Int.toNat_of_nonneg hnonneg]
      intro tail heq
      exact hminus (List.cons.inj heq).1
  · next hneg =>
      rw [List.cons_append, readInt, readNat_toDigits _ hends, Option.map_some,
        Int.toNat_of_nonneg (by omega), Int.neg_neg]

/-! ## Values -/

theorem skip_cons {c : Char} (hc : isBlank c = false) (rest : List Char) :
    skip (c :: rest) = c :: rest := by
  rw [skip, List.dropWhile_cons, hc]
  rfl

/-- A written value starts with no blank and no closing bracket. -/
theorem stringify_eq_cons (v : Value) :
    ∃ c cs, stringify v = c :: cs ∧ isBlank c = false ∧ c ≠ ']' := by
  cases v with
  | null => exact ⟨'n', _, rfl, by decide, by decide⟩
  | bool b =>
      cases b with
      | true => exact ⟨'t', _, rfl, by decide, by decide⟩
      | false => exact ⟨'f', _, rfl, by decide, by decide⟩
  | int n =>
      rw [stringify, toList_toString_int]
      split
      · obtain ⟨c, cs, hcons, hdigit⟩ := toDigits_eq_cons n.toNat
        have hblank : isBlank c = false := by
          by_contra hnot
          have hmem := of_decide_eq_true (eq_true_of_ne_false hnot)
          have hall : [' ', '\x09', '\x0a', '\x0d'].all (fun c => !c.isDigit) = true := by decide
          have hnot := List.all_eq_true.mp hall c hmem
          rw [hdigit] at hnot
          cases hnot
        refine ⟨c, cs, hcons, hblank, ?_⟩
        rintro rfl
        exact absurd hdigit (by decide)
      · exact ⟨'-', _, rfl, by decide, by decide⟩
  | str s => exact ⟨mark, _, rfl, by decide, by decide⟩
  | arr items => exact ⟨'[', _, rfl, by decide, by decide⟩
  | obj fields => exact ⟨'\x7b', _, rfl, by decide, by decide⟩

theorem skip_stringify (v : Value) (rest : List Char) :
    skip (stringify v ++ rest) = stringify v ++ rest := by
  obtain ⟨c, cs, hcons, hblank, -⟩ := stringify_eq_cons v
  rw [hcons, List.cons_append, skip_cons hblank]

theorem readValue_int (n : Int) (fuel : Nat) {rest : List Char} (hends : Ends rest) :
    readValue (fuel + 1) (stringify (.int n) ++ rest) = some (.int n, rest) := by
  obtain ⟨c, cs, hcons, hhead⟩ : ∃ c cs, stringify (.int n) = c :: cs ∧
      (c = '-' ∨ c.isDigit = true) := by
    rw [stringify, toList_toString_int]
    split
    · obtain ⟨c, cs, hcons, hdigit⟩ := toDigits_eq_cons n.toNat
      exact ⟨c, cs, hcons, .inr hdigit⟩
    · exact ⟨'-', _, rfl, .inl rfl⟩
  have hread := readInt_toString n hends
  have hskip := skip_stringify (.int n) rest
  rw [hcons, List.cons_append] at hskip ⊢
  rw [stringify] at hcons
  rw [hcons, List.cons_append] at hread
  rw [readValue, hskip]
  dsimp only
  rw [if_pos hhead, hread, Option.map_some]

theorem readValue_items {fuel : Nat} {cs : List Char} {items : List Value} {rest : List Char}
    (hopen : (skip cs).head? ≠ some ']') (h : readItems fuel cs = some (items, rest)) :
    readValue (fuel + 1) ('[' :: cs) = some (.arr items, rest) := by
  rw [readValue, skip_cons (by decide)]
  dsimp only
  rw [if_neg (by decide), if_neg (by decide), if_pos rfl, if_neg hopen, h, Option.map_some]

theorem readValue_fields {fuel : Nat} {cs : List Char} {fields : List (String × Value)}
    {rest : List Char} (hopen : (skip cs).head? ≠ some '\x7d')
    (h : readFields fuel cs = some (fields, rest)) :
    readValue (fuel + 1) ('\x7b' :: cs) = some (.obj fields, rest) := by
  rw [readValue, skip_cons (by decide)]
  dsimp only
  rw [if_neg (by decide), if_neg (by decide), if_neg (by decide), if_pos rfl, if_neg hopen, h,
    Option.map_some]

theorem readItems_cons {fuel : Nat} {cs : List Char} {v : Value} {rest : List Char}
    {items : List Value} {back : List Char} (hv : readValue fuel cs = some (v, ',' :: rest))
    (h : readItems fuel rest = some (items, back)) :
    readItems (fuel + 1) cs = some (v :: items, back) := by
  rw [readItems, hv, Option.bind_some]
  dsimp only
  rw [skip_cons (by decide)]
  change (_ : Option _).map _ = _
  rw [h, Option.map_some]

theorem readItems_last {fuel : Nat} {cs : List Char} {v : Value} {rest : List Char}
    (hv : readValue fuel cs = some (v, ']' :: rest)) :
    readItems (fuel + 1) cs = some ([v], rest) := by
  rw [readItems, hv, Option.bind_some]
  dsimp only
  rw [skip_cons (by decide)]
  rfl

theorem readFields_key (fuel : Nat) (k : String) (cs : List Char) :
    readFields (fuel + 1) (quote k ++ ':' :: cs) =
      (readValue fuel cs).bind fun v =>
        match skip v.2 with
        | ',' :: rest =>
          (readFields fuel rest).map fun fields => ((k, v.1) :: fields.1, fields.2)
        | '\x7d' :: rest => some ([(k, v.1)], rest)
        | _ => none := by
  rw [quote, List.cons_append, readFields, skip_cons (by decide)]
  dsimp only
  rw [if_pos rfl, List.append_assoc, List.singleton_append, readString_quote, Option.bind_some]
  dsimp only
  rw [skip_cons (by decide)]
  rfl

theorem readFields_cons {fuel : Nat} {k : String} {cs : List Char} {v : Value} {rest : List Char}
    {fields : List (String × Value)} {back : List Char}
    (hv : readValue fuel cs = some (v, ',' :: rest))
    (h : readFields fuel rest = some (fields, back)) :
    readFields (fuel + 1) (quote k ++ ':' :: cs) = some ((k, v) :: fields, back) := by
  rw [readFields_key, hv, Option.bind_some]
  dsimp only
  rw [skip_cons (by decide)]
  change (_ : Option _).map _ = _
  rw [h, Option.map_some]

theorem readFields_last {fuel : Nat} {k : String} {cs : List Char} {v : Value} {rest : List Char}
    (hv : readValue fuel cs = some (v, '\x7d' :: rest)) :
    readFields (fuel + 1) (quote k ++ ':' :: cs) = some ([(k, v)], rest) := by
  rw [readFields_key, hv, Option.bind_some]
  dsimp only
  rw [skip_cons (by decide)]
  rfl

mutual

/-- A value is read back, whatever comes behind it that is no digit. -/
theorem readValue_stringify : (v : Value) → (fuel : Nat) → (rest : List Char) → Ends rest →
    2 * (stringify v ++ rest).length + 1 ≤ fuel →
    readValue fuel (stringify v ++ rest) = some (v, rest)
  | v, 0, rest, _, hfuel => absurd hfuel (by omega)
  | .null, fuel + 1, rest, _, _ => by
      rw [readValue, skip_stringify]
      rfl
  | .bool true, fuel + 1, rest, _, _ => by
      rw [readValue, skip_stringify]
      rfl
  | .bool false, fuel + 1, rest, _, _ => by
      rw [readValue, skip_stringify]
      rfl
  | .int n, fuel + 1, rest, hends, _ => readValue_int n fuel hends
  | .str s, fuel + 1, rest, _, _ => by
      rw [readValue, skip_stringify, stringify, quote, List.cons_append]
      dsimp only
      rw [if_neg (by decide), if_pos rfl, List.append_assoc, List.singleton_append,
        readString_quote, Option.map_some]
  | .arr [], fuel + 1, rest, _, _ => by
      rw [readValue, skip_stringify]
      rfl
  | .arr (v :: items), fuel + 1, rest, _, hfuel => by
      rw [stringify, List.cons_append, List.append_assoc, List.singleton_append] at hfuel ⊢
      rw [List.length_cons] at hfuel
      refine readValue_items ?_ (readItems_stringify v items fuel rest (by omega))
      obtain ⟨c, cs, hcons, hblank, hne⟩ := stringify_eq_cons v
      have hhead : ∃ tail, stringifyItems (v :: items) = c :: tail := by
        cases items with
        | nil => exact ⟨cs, by rw [stringifyItems, hcons]⟩
        | cons w items =>
            rw [stringifyItems, hcons]
            exact ⟨_, rfl⟩
      obtain ⟨tail, htail⟩ := hhead
      rw [htail, List.cons_append, skip_cons hblank]
      exact fun heq => hne (Option.some.inj heq)
  | .obj [], fuel + 1, rest, _, _ => by
      rw [readValue, skip_stringify]
      rfl
  | .obj ((k, v) :: fields), fuel + 1, rest, _, hfuel => by
      rw [stringify, List.cons_append, List.append_assoc, List.singleton_append] at hfuel ⊢
      rw [List.length_cons] at hfuel
      refine readValue_fields ?_ (readFields_stringify k v fields fuel rest (by omega))
      have hhead : ∃ tail, stringifyFields ((k, v) :: fields) = mark :: tail := by
        cases fields with
        | nil => exact ⟨_, rfl⟩
        | cons field fields => exact ⟨_, rfl⟩
      obtain ⟨tail, htail⟩ := hhead
      rw [htail, List.cons_append, skip_cons (by decide)]
      exact fun heq => absurd (Option.some.inj heq) (by decide)

theorem readItems_stringify : (v : Value) → (items : List Value) → (fuel : Nat) →
    (rest : List Char) → 2 * (stringifyItems (v :: items) ++ ']' :: rest).length + 2 ≤ fuel →
    readItems fuel (stringifyItems (v :: items) ++ ']' :: rest) = some (v :: items, rest)
  | v, items, 0, rest, hfuel => absurd hfuel (by omega)
  | v, [], fuel + 1, rest, hfuel => by
      rw [stringifyItems] at hfuel ⊢
      exact readItems_last
        (readValue_stringify v fuel _ (ends_cons (by decide) rest) (by omega))
  | v, w :: items, fuel + 1, rest, hfuel => by
      rw [stringifyItems, List.append_assoc, List.cons_append] at hfuel ⊢
      refine readItems_cons
        (readValue_stringify v fuel _ (ends_cons (by decide) _) (by omega)) ?_
      rw [List.length_append, List.length_cons] at hfuel
      exact readItems_stringify w items fuel rest (by omega)

theorem readFields_stringify : (k : String) → (v : Value) → (fields : List (String × Value)) →
    (fuel : Nat) → (rest : List Char) →
    2 * (stringifyFields ((k, v) :: fields) ++ '\x7d' :: rest).length + 2 ≤ fuel →
    readFields fuel (stringifyFields ((k, v) :: fields) ++ '\x7d' :: rest) =
      some ((k, v) :: fields, rest)
  | k, v, fields, 0, rest, hfuel => absurd hfuel (by omega)
  | k, v, [], fuel + 1, rest, hfuel => by
      rw [stringifyFields, List.append_assoc, List.cons_append] at hfuel ⊢
      rw [List.length_append, List.length_cons] at hfuel
      exact readFields_last
        (readValue_stringify v fuel _ (ends_cons (by decide) rest) (by omega))
  | k, v, (l, w) :: fields, fuel + 1, rest, hfuel => by
      rw [stringifyFields, List.append_assoc, List.cons_append, List.append_assoc,
        List.cons_append] at hfuel ⊢
      rw [List.length_append, List.length_cons] at hfuel
      refine readFields_cons
        (readValue_stringify v fuel _ (ends_cons (by decide) _) (by omega)) ?_
      rw [List.length_append, List.length_cons] at hfuel
      exact readFields_stringify l w fields fuel rest (by omega)

end

theorem parse_stringify (v : Value) : parse (stringify v) = some v := by
  have hread := readValue_stringify v (2 * (stringify v).length + 1) [] ends_nil
    (Nat.le_of_eq (by rw [List.append_nil]))
  rw [List.append_nil] at hread
  rw [parse, hread, Option.bind_some]
  rfl

/-! ## What is in a text -/

/-- No character below the space. -/
def Printable (cs : List Char) : Prop := ∀ c ∈ cs, 0x20 ≤ c.toNat

theorem printable_of_all {cs : List Char} (h : cs.all (fun c => Nat.ble 0x20 c.toNat) = true) :
    Printable cs := fun c hc => Nat.le_of_ble_eq_true (List.all_eq_true.mp h c hc)

theorem printable_append {a b : List Char} (ha : Printable a) (hb : Printable b) :
    Printable (a ++ b) := fun c hc => (List.mem_append.mp hc).elim (ha c) (hb c)

theorem printable_cons {c : Char} {cs : List Char} (hc : 0x20 ≤ c.toNat) (hcs : Printable cs) :
    Printable (c :: cs) := List.forall_mem_cons.mpr ⟨hc, hcs⟩

theorem printable_toDigits (n : Nat) : Printable (Nat.toDigits 10 n) := by
  intro c hc
  have hdigit := Nat.isDigit_of_mem_toDigits (by omega) (by omega) hc
  have hlow : '0' ≤ c := by
    rw [Char.isDigit, Bool.and_eq_true, decide_eq_true_iff] at hdigit
    exact hdigit.1
  have hle : (0x30 : Nat) ≤ c.toNat := hlow
  omega

theorem printable_escape (c : Char) : Printable (escape c) := by
  rcases escape_cases c with ⟨e, he, h⟩ | ⟨hlow, h⟩ | ⟨-, -, hhigh, h⟩
  · have hall : ∀ short ∈ shorts, 0x20 ≤ short.2.toNat := by decide
    rw [h]
    exact printable_cons (by decide) (printable_cons (hall _ he) fun _ hd => by cases hd)
  · have hall : ∀ d < 16, 0x20 ≤ (Nat.digitChar d).toNat := by decide
    rw [h]
    refine printable_cons (by decide) (printable_cons (by decide) (printable_cons (by decide)
      (printable_cons (by decide) (printable_cons (hall _ ?_) (printable_cons (hall _ ?_)
        fun _ hd => by cases hd))))) <;> omega
  · rw [h]
    exact printable_cons hhigh fun _ hd => by cases hd

theorem printable_quote (s : String) : Printable (quote s) := by
  refine printable_cons (by decide) (printable_append ?_ (printable_of_all rfl))
  intro c hc
  obtain ⟨d, -, hd⟩ := List.mem_flatMap.mp hc
  exact printable_escape d c hd

mutual

theorem printable_stringify : (v : Value) → Printable (stringify v)
  | .null => printable_of_all rfl
  | .bool true => printable_of_all rfl
  | .bool false => printable_of_all rfl
  | .int n => by
      rw [stringify, toList_toString_int]
      split
      · exact printable_toDigits _
      · exact printable_cons (by decide) (printable_toDigits _)
  | .str s => printable_quote s
  | .arr items => printable_cons (by decide)
      (printable_append (printable_items items) (printable_of_all rfl))
  | .obj fields => printable_cons (by decide)
      (printable_append (printable_fields fields) (printable_of_all rfl))

theorem printable_items : (items : List Value) → Printable (stringifyItems items)
  | [] => fun _ hc => by cases hc
  | [v] => printable_stringify v
  | v :: w :: items => printable_append (printable_stringify v)
      (printable_cons (by decide) (printable_items (w :: items)))

theorem printable_fields : (fields : List (String × Value)) → Printable (stringifyFields fields)
  | [] => fun _ hc => by cases hc
  | [(k, v)] => printable_append (printable_quote k)
      (printable_cons (by decide) (printable_stringify v))
  | (k, v) :: field :: fields => printable_append (printable_quote k)
      (printable_cons (by decide) (printable_append (printable_stringify v)
        (printable_cons (by decide) (printable_fields (field :: fields)))))

end

end CollabIDE.Lib.Json
