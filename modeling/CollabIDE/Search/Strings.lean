import Mathlib.Data.List.Basic
/-!
# Strings of the browser

A string is a list of UTF-16 code units: its length, its positions and its
slices count units.  `toLowerCase` and `for…of` go by characters, where a
surrogate pair is one.  Lowercasing depends on the surroundings for the capital
sigma only; what it makes of any other character is read from the Unicode data.
-/

namespace CollabIDE.Search.Strings

abbrev Text := List UInt16

def newline : UInt16 := 0x0a
def slash : UInt16 := 0x2f
def ellipsis : UInt16 := 0x2026
def capitalSigma : UInt16 := 0x3a3
def smallSigma : UInt16 := 0x3c3
def finalSigma : UInt16 := 0x3c2

/-- The code units of a string. -/
def units (s : String) : Text :=
  s.toList.flatMap fun c =>
    if c.toNat < 0x10000 then [c.toNat.toUInt16]
    else
      let n := c.toNat - 0x10000
      [(0xd800 + n / 0x400).toUInt16, (0xdc00 + n % 0x400).toUInt16]

/-- What `trim` and `trimStart` remove. -/
def isTrimmed (u : UInt16) : Bool :=
  u.toNat ∈ [0x20, 0xa0, 0x1680, 0x2028, 0x2029, 0x202f, 0x205f, 0x3000, 0xfeff] ||
    (0x09 ≤ u.toNat && u.toNat ≤ 0x0d) || (0x2000 ≤ u.toNat && u.toNat ≤ 0x200a)

def trimStart (s : Text) : Text := s.dropWhile isTrimmed

def trim (s : Text) : Text := ((trimStart s).reverse.dropWhile isTrimmed).reverse

/-! ## Slices -/

section Slices

variable {α : Type}

/-- The position an argument of `slice` stands for: a negative one counts from the end. -/
def resolve (length : Nat) (i : Int) : Nat :=
  if i < 0 then (length + i).toNat else min i.toNat length

/-- `slice(start, stop)`. -/
def slice (text : List α) (start stop : Int) : List α :=
  (text.take (resolve text.length stop)).drop (resolve text.length start)

theorem resolve_le (length : Nat) (i : Int) : resolve length i ≤ length := by
  unfold resolve
  split <;> omega

theorem resolve_natCast {length n : Nat} (h : n ≤ length) : resolve length n = n := by
  unfold resolve
  split <;> omega

theorem slice_natCast (text : List α) {start stop : Nat} (hstart : start ≤ text.length)
    (hstop : stop ≤ text.length) : slice text start stop = (text.take stop).drop start := by
  rw [slice, resolve_natCast hstart, resolve_natCast hstop]

theorem length_slice (text : List α) (start stop : Int) :
    (slice text start stop).length = resolve text.length stop - resolve text.length start := by
  rw [slice, List.length_drop, List.length_take_of_le (resolve_le _ _)]

end Slices

/-! ## Characters -/

def isHigh (u : UInt16) : Bool := 0xd800 ≤ u.toNat && u.toNat < 0xdc00
def isLow (u : UInt16) : Bool := 0xdc00 ≤ u.toNat && u.toNat < 0xe000

/-- The characters of a string, as `for…of` gives them. -/
def chars : Text → List Text
  | [] => []
  | [u] => [[u]]
  | u :: v :: rest =>
    if isHigh u && isLow v then [u, v] :: chars rest else [u] :: chars (v :: rest)

theorem chars_flatten (s : Text) : (chars s).flatten = s := by
  fun_induction chars s with
  | case1 => rfl
  | case2 => rfl
  | case3 u v rest hpair ih => rw [List.flatten_cons, ih]; rfl
  | case4 u v rest hpair ih => rw [List.flatten_cons, ih]; rfl

/-- One unit, or a pair of surrogates. -/
def IsChar (c : Text) : Prop :=
  (∃ u, c = [u]) ∨ ∃ u v, c = [u, v] ∧ isHigh u = true ∧ isLow v = true

theorem isChar_of_mem_chars {s c : Text} (h : c ∈ chars s) : IsChar c := by
  fun_induction chars s with
  | case1 => cases h
  | case2 u => exact .inl ⟨u, List.mem_singleton.mp h⟩
  | case3 u v rest hpair ih =>
      rcases List.mem_cons.mp h with rfl | h
      · exact .inr ⟨u, v, rfl, by simpa using hpair⟩
      · exact ih h
  | case4 u v rest hpair ih =>
      rcases List.mem_cons.mp h with rfl | h
      · exact .inl ⟨u, rfl⟩
      · exact ih h

theorem IsChar.ne_nil {c : Text} (h : IsChar c) : c ≠ [] := by
  rcases h with ⟨u, rfl⟩ | ⟨u, v, rfl, -⟩ <;> exact List.cons_ne_nil _ _

theorem chars_cons_of_not_high {u : UInt16} (hu : isHigh u = false) (s : Text) :
    chars (u :: s) = [u] :: chars s := by
  cases s with
  | nil => rfl
  | cons v rest => rw [chars, if_neg (by simp [hu])]

/-- No character reaches across a unit that is no surrogate. -/
theorem chars_append {u : UInt16} (hlow : isLow u = false) (s t : Text) :
    chars (s ++ u :: t) = chars s ++ chars (u :: t) := by
  fun_induction chars s with
  | case1 => rfl
  | case2 v =>
      rw [List.singleton_append, chars, if_neg (by simp [hlow])]
      rfl
  | case3 v w rest hpair ih =>
      rw [List.cons_append, List.cons_append, chars, if_pos hpair, ih]
      rfl
  | case4 v w rest hpair ih =>
      rw [List.cons_append, List.cons_append, chars, if_neg hpair, ← List.cons_append, ih]
      rfl

/-! ## Lowercase -/

theorem chars_of_append {s : Text} {cs ds : List Text} (h : chars s = cs ++ ds) :
    chars cs.flatten = cs ∧ chars ds.flatten = ds := by
  fun_induction chars s generalizing cs with
  | case1 =>
      obtain ⟨rfl, rfl⟩ := List.append_eq_nil_iff.mp h.symm
      exact ⟨rfl, rfl⟩
  | case2 u =>
      rcases cs with _ | ⟨c, cs⟩
      · obtain rfl := h
        exact ⟨rfl, rfl⟩
      · obtain ⟨rfl, hrest⟩ := List.cons.inj h
        obtain ⟨rfl, rfl⟩ := List.append_eq_nil_iff.mp hrest.symm
        exact ⟨rfl, rfl⟩
  | case3 u v rest hpair ih =>
      rcases cs with _ | ⟨c, cs⟩
      · obtain rfl := h
        refine ⟨rfl, ?_⟩
        rw [List.flatten_cons, chars_flatten]
        exact if_pos hpair
      · obtain ⟨rfl, hrest⟩ := List.cons.inj h
        obtain ⟨hcs, hds⟩ := ih hrest
        refine ⟨?_, hds⟩
        rw [List.flatten_cons, List.cons_append, List.singleton_append, chars, if_pos hpair, hcs]
  | case4 u v rest hpair ih =>
      rcases cs with _ | ⟨c, cs⟩
      · obtain rfl := h
        refine ⟨rfl, ?_⟩
        rw [List.flatten_cons, chars_flatten]
        exact if_neg hpair
      · obtain ⟨rfl, hrest⟩ := List.cons.inj h
        obtain ⟨hcs, hds⟩ := ih hrest
        refine ⟨?_, hds⟩
        have hflatten : v :: rest = cs.flatten ++ ds.flatten := by
          rw [← chars_flatten (v :: rest), hrest]
          exact List.flatten_append
        rw [List.flatten_cons, List.singleton_append]
        cases hfront : cs.flatten with
        | nil =>
            rw [hfront] at hcs
            rw [← hcs]
            rfl
        | cons w more =>
            rw [hfront] at hflatten hcs
            obtain ⟨rfl, -⟩ := List.cons.inj hflatten
            rw [chars, if_neg hpair, hcs]

def isSurrogate (u : UInt16) : Bool := isHigh u || isLow u

/-- What the Unicode data says about a character. -/
structure Casing where
  lower : Text → Text
  cased : Text → Bool
  caseIgnorable : Text → Bool
  lower_ne_nil : ∀ {c}, c ≠ [] → lower c ≠ []
  /-- White space, the slash and a lone surrogate are their own lowercase. -/
  lower_fixed : ∀ {u}, isTrimmed u ∨ u = slash ∨ isSurrogate u → lower [u] = [u]
  /-- They are in no other lowercase. -/
  mem_lower : ∀ {u c}, IsChar c → isTrimmed u ∨ u = slash → u ∈ lower c → c = [u]
  mem_lower_surrogate : ∀ {u v}, isSurrogate u → u ∈ lower [v] → v = u
  uncased : ∀ {u}, u = newline ∨ u = slash → cased [u] = false ∧ caseIgnorable [u] = false

variable (C : Casing)

/-- Case-ignorable characters, then a cased one. -/
def startsCased : List Text → Bool
  | [] => false
  | c :: cs => C.cased c || C.caseIgnorable c && startsCased cs

/-- The lowercase of a character; the ones before it are given from the nearest on. -/
def lowerAt (before : List Text) (c : Text) (after : List Text) : Text :=
  if c = [capitalSigma] then
    if startsCased C before && !startsCased C after then [finalSigma] else [smallSigma]
  else C.lower c

def lowerChars : List Text → List Text → Text
  | _, [] => []
  | before, c :: cs => lowerAt C before c cs ++ lowerChars (c :: before) cs

def toLowerCase (s : Text) : Text := lowerChars C [] (chars s)

section Lowercase

variable {C} {u : UInt16} {before cs ds : List Text} {c : Text}

theorem lowerAt_of_ne (hc : c ≠ [capitalSigma]) (before after : List Text) :
    lowerAt C before c after = C.lower c := if_neg hc

theorem lowerAt_ne_nil (hc : c ≠ []) (before after : List Text) :
    lowerAt C before c after ≠ [] := by
  unfold lowerAt
  split_ifs
  · exact List.cons_ne_nil _ _
  · exact List.cons_ne_nil _ _
  · exact C.lower_ne_nil hc

theorem toLowerCase_ne_nil {s : Text} (hs : s ≠ []) : toLowerCase C s ≠ [] := by
  rw [toLowerCase]
  cases hchars : chars s with
  | nil => exact absurd (hchars ▸ chars_flatten s).symm hs
  | cons c cs =>
      have hc : c ≠ [] := (isChar_of_mem_chars (hchars ▸ List.mem_cons_self)).ne_nil
      exact List.append_ne_nil_of_left_ne_nil (lowerAt_ne_nil hc [] cs) _

/-- Without a capital sigma every character is lowercased on its own. -/
theorem lowerChars_eq_flatMap (h : [capitalSigma] ∉ cs) :
    lowerChars C before cs = cs.flatMap C.lower := by
  induction cs generalizing before with
  | nil => rfl
  | cons c cs ih =>
      obtain ⟨hc, hcs⟩ := not_or.mp (List.mem_cons.not.mp h)
      rw [lowerChars, lowerAt_of_ne (Ne.symm hc), ih hcs, List.flatMap_cons]

theorem length_lowerAt (h : (C.lower c).length = c.length) (before after : List Text) :
    (lowerAt C before c after).length = c.length := by
  unfold lowerAt
  split_ifs with hsigma
  · rw [hsigma]
    rfl
  · rw [hsigma]
    rfl
  · exact h

theorem exists_lowerChars_append (h : ∀ c ∈ cs, (C.lower c).length = c.length)
    (before ds : List Text) :
    ∃ front, lowerChars C before (cs ++ ds) = front ++ lowerChars C (cs.reverse ++ before) ds ∧
      front.length = cs.flatten.length := by
  induction cs generalizing before with
  | nil => exact ⟨[], rfl, rfl⟩
  | cons c cs ih =>
      obtain ⟨hc, hcs⟩ := List.forall_mem_cons.mp h
      obtain ⟨front, hfront, hlength⟩ := ih hcs (c :: before)
      refine ⟨lowerAt C before c (cs ++ ds) ++ front, ?_, ?_⟩
      · rw [List.cons_append, lowerChars, hfront, List.append_assoc, List.reverse_cons,
          List.append_assoc, List.singleton_append]
      · rw [List.length_append, length_lowerAt hc, hlength, List.flatten_cons, List.length_append]

theorem lowerChars_append (h : [capitalSigma] ∉ cs) (before ds : List Text) :
    lowerChars C before (cs ++ ds) =
      cs.flatMap C.lower ++ lowerChars C (cs.reverse ++ before) ds := by
  induction cs generalizing before with
  | nil => rfl
  | cons c cs ih =>
      obtain ⟨hc, hcs⟩ := not_or.mp (List.mem_cons.not.mp h)
      rw [List.cons_append, lowerChars, lowerAt_of_ne (Ne.symm hc), ih hcs, List.flatMap_cons,
        List.append_assoc, List.reverse_cons, List.append_assoc, List.singleton_append]

theorem mem_lowerAt (hc : IsChar c) (hu : isTrimmed u ∨ u = slash) {after : List Text}
    (h : u ∈ lowerAt C before c after) : c = [u] := by
  unfold lowerAt at h
  split_ifs at h
  · obtain rfl := List.mem_singleton.mp h
    exact absurd hu (by decide)
  · obtain rfl := List.mem_singleton.mp h
    exact absurd hu (by decide)
  · exact C.mem_lower hc hu h

theorem mem_of_mem_toLowerCase {s : Text} (hu : isTrimmed u ∨ u = slash)
    (h : u ∈ toLowerCase C s) : u ∈ s := by
  rw [toLowerCase] at h
  rw [← chars_flatten s]
  have hchars : ∀ c ∈ chars s, IsChar c := fun c => isChar_of_mem_chars
  generalize chars s = cs at h hchars
  generalize ([] : List Text) = before at h
  induction cs generalizing before with
  | nil => cases h
  | cons c cs ih =>
      obtain ⟨hc, hcs⟩ := List.forall_mem_cons.mp hchars
      rw [List.flatten_cons, List.mem_append]
      rcases List.mem_append.mp h with h | h
      · exact .inl (mem_lowerAt hc hu h ▸ List.mem_singleton_self u)
      · exact .inr (ih hcs _ h)

/-- What makes a sigma final does not reach past a newline or a slash. -/
theorem startsCased_append (hu : u = newline ∨ u = slash) (cs ds : List Text) :
    startsCased C (cs ++ [u] :: ds) = startsCased C cs := by
  induction cs with
  | nil => simp [startsCased, C.uncased hu]
  | cons c cs ih => rw [List.cons_append, startsCased, ih, startsCased]

theorem lowerChars_before (hu : u = newline ∨ u = slash) (before more cs : List Text) :
    lowerChars C (before ++ [u] :: more) cs = lowerChars C before cs := by
  induction cs generalizing before with
  | nil => rfl
  | cons c cs ih =>
      rw [lowerChars, lowerChars, ← List.cons_append, ih, lowerAt, startsCased_append hu, lowerAt]

theorem lowerChars_after (hu : u = newline ∨ u = slash) (before cs ds : List Text) :
    lowerChars C before (cs ++ [u] :: ds) =
      lowerChars C before cs ++ lowerChars C (cs.reverse ++ before) ([u] :: ds) := by
  induction cs generalizing before with
  | nil => rfl
  | cons c cs ih =>
      have hat : lowerAt C before c (cs ++ [u] :: ds) = lowerAt C before c cs := by
        rw [lowerAt, startsCased_append hu, lowerAt]
      have hreverse : (c :: cs).reverse ++ before = cs.reverse ++ c :: before := by simp
      rw [List.cons_append, lowerChars, hat, ih, hreverse, ← List.append_assoc]
      rfl

/-- A newline or a slash splits a string and its lowercase alike. -/
theorem toLowerCase_append_cons (hu : u = newline ∨ u = slash) (s t : Text) :
    toLowerCase C (s ++ u :: t) = toLowerCase C s ++ u :: toLowerCase C t := by
  have hfixed : C.lower [u] = [u] := by
    refine C.lower_fixed (hu.imp (fun h => ?_) .inl)
    rw [h]
    decide
  have hhigh : isHigh u = false := by rcases hu with rfl | rfl <;> decide
  have hlow : isLow u = false := by rcases hu with rfl | rfl <;> decide
  have hsigma : [u] ≠ [capitalSigma] := by rcases hu with rfl | rfl <;> decide
  have hrest : lowerChars C ([u] :: (chars s).reverse) (chars t) = lowerChars C [] (chars t) :=
    lowerChars_before hu [] (chars s).reverse (chars t)
  rw [toLowerCase, chars_append hlow, chars_cons_of_not_high hhigh, lowerChars_after hu, lowerChars,
    lowerAt_of_ne hsigma, hfixed, List.append_nil, hrest]
  rfl

end Lowercase

/-! ## Two alphabets -/

/-- A capital of the Basic Latin or the Greek block. -/
def isCapital (u : UInt16) : Bool :=
  (0x41 ≤ u.toNat && u.toNat ≤ 0x5a) || (0x391 ≤ u.toNat && u.toNat ≤ 0x3a9 && u.toNat ≠ 0x3a2)

def lowerUnit (u : UInt16) : Text :=
  if isCapital u then [u + 0x20] else if u = 0x130 then [0x69, 0x307] else [u]

theorem lowerUnit_cases (u : UInt16) :
    isCapital u = true ∧ lowerUnit u = [u + 0x20] ∨ u = 0x130 ∧ lowerUnit u = [0x69, 0x307] ∨
      lowerUnit u = [u] := by
  unfold lowerUnit
  split_ifs with hcapital hdotted
  · exact .inl ⟨hcapital, rfl⟩
  · exact .inr (.inl ⟨hdotted, rfl⟩)
  · exact .inr (.inr rfl)

theorem not_fixed_of_capital {u : UInt16} (h : isCapital u = true) :
    (isTrimmed u = false ∧ u ≠ slash ∧ isSurrogate u = false) ∧
      isTrimmed (u + 0x20) = false ∧ u + 0x20 ≠ slash ∧ isSurrogate (u + 0x20) = false := by
  have hadd : (u + 0x20).toNat = (u.toNat + 0x20) % 65536 := rfl
  have hne : ∀ v : UInt16, v.toNat ≠ 0x2f → v ≠ slash := by
    rintro v hv rfl
    exact hv rfl
  simp only [isCapital, Bool.or_eq_true, Bool.and_eq_true, decide_eq_true_eq] at h
  simp only [isTrimmed, isSurrogate, isHigh, isLow, hadd, Bool.or_eq_false_iff,
    Bool.and_eq_false_iff, decide_eq_false_iff_not, List.mem_cons, List.not_mem_nil, or_false]
  refine ⟨⟨⟨⟨?_, ?_⟩, ?_⟩, hne _ ?_, ?_, ?_⟩, ⟨⟨?_, ?_⟩, ?_⟩, hne _ ?_, ?_, ?_⟩ <;> omega

def lowerChar : Text → Text
  | [u] => lowerUnit u
  | c => c

theorem not_surrogate_of_fixed {u : UInt16} (h : isTrimmed u = true ∨ u = slash) :
    isSurrogate u = false := by
  rcases h with h | rfl
  · simp only [isTrimmed, Bool.or_eq_true, Bool.and_eq_true, decide_eq_true_eq, List.mem_cons,
      List.not_mem_nil, or_false] at h
    simp only [isSurrogate, isHigh, isLow, Bool.or_eq_false_iff, Bool.and_eq_false_iff,
      decide_eq_false_iff_not]
    omega
  · decide

theorem mem_lowerUnit {u v : UInt16} (h : u ∈ lowerUnit v) :
    v = u ∨ isTrimmed u = false ∧ u ≠ slash ∧ isSurrogate u = false := by
  rcases lowerUnit_cases v with ⟨hcapital, hlower⟩ | ⟨-, hlower⟩ | hlower
  · obtain rfl := List.mem_singleton.mp (hlower ▸ h)
    exact .inr (not_fixed_of_capital hcapital).2
  · rw [hlower] at h
    right
    rcases List.mem_pair.mp h with rfl | rfl <;> decide
  · exact .inl (List.mem_singleton.mp (hlower ▸ h)).symm

/-- The Unicode data of the Latin and the Greek capitals. -/
def latinGreek : Casing where
  lower := lowerChar
  cased
    | [u] => isCapital u || isCapital (u - 0x20)
    | _ => false
  caseIgnorable c := c = units "'" || c = units "." || c = units ":"
  lower_ne_nil {c} hc := by
    rcases c with _ | ⟨u, _ | ⟨v, rest⟩⟩
    · exact absurd rfl hc
    · rcases lowerUnit_cases u with ⟨-, h⟩ | ⟨-, h⟩ | h <;> simp [lowerChar, h]
    · exact List.cons_ne_nil _ _
  lower_fixed {u} hu := by
    rcases lowerUnit_cases u with ⟨hcapital, -⟩ | ⟨rfl, -⟩ | h
    · have hnot := (not_fixed_of_capital hcapital).1
      simp [hnot] at hu
    · revert hu
      decide
    · exact h
  mem_lower {u c} hc hu hmem := by
    rcases hc with ⟨v, rfl⟩ | ⟨v, w, rfl, hv, hw⟩
    · rcases mem_lowerUnit hmem with rfl | ⟨htrimmed, hslash, -⟩
      · rfl
      · simp [htrimmed, hslash] at hu
    · have hsurrogate : isSurrogate u = true := by
        rcases List.mem_pair.mp hmem with rfl | rfl <;> simp [isSurrogate, hv, hw]
      rw [not_surrogate_of_fixed hu] at hsurrogate
      cases hsurrogate
  mem_lower_surrogate {u v} hu hmem := by
    rcases mem_lowerUnit hmem with rfl | ⟨-, -, hnot⟩
    · rfl
    · rw [hnot] at hu
      cases hu
  uncased := by
    rintro u (rfl | rfl) <;> decide

end CollabIDE.Search.Strings
