import CollabIDE.Lib.PathPrefix
import CollabIDE.Search.Match
/-!
# What a search in a content reports

The loop finds positions in the lowercased content and counts, cuts and skips
lines at these positions in the content itself.  It reports the matching lines
one by one exactly if the positions are right there too, as they are where
lowercasing keeps the lengths.
-/

namespace CollabIDE.Search.ContentMatch

open CollabIDE.Lib.Substring CollabIDE.Search.Match CollabIDE.Search.Strings

/-! ## The lines of a content -/

structure Line where
  /-- From 1 on. -/
  number : Nat
  /-- Its position in the content. -/
  start : Nat
  text : Text
  deriving DecidableEq

def linesFrom (number start : Nat) : List Text → List Line
  | [] => []
  | text :: texts => ⟨number, start, text⟩ :: linesFrom (number + 1) (start + text.length + 1) texts

def lines (content : Text) : List Line := linesFrom 1 0 (content.splitOn newline)

/-- The lines whose lowercase holds the needle. -/
def hits (C : Casing) (needle : Text) (ls : List Line) : List Line :=
  ls.filter fun l => needle <:+: toLowerCase C l.text

/-- A result has the number of the line, an offset inside it, and one range: it is within the
snippet, and what it covers lowercases to the needle. -/
structure Reports (C : Casing) (needle : Text) (r : ContentMatch) (l : Line) : Prop where
  number : r.line = l.number
  inside : l.start ≤ r.offset ∧ r.offset < l.start + l.text.length
  reads : ∃ range, r.ranges = [range] ∧ 0 ≤ range.start ∧ range.start < range.stop ∧
    range.stop ≤ r.snippet.length ∧
    toLowerCase C (slice r.snippet range.start range.stop) = needle

/-! ## The inner loop -/

section CountLines

variable {content front l back : Text} {found : Nat} {c : Cursors}

theorem countLines_succ (h : c.scanned ≤ found) :
    countLines content (found + 1) c = countUnit content (countLines content found c) found := by
  have hlength : found + 1 - c.scanned = (found - c.scanned) + 1 := by omega
  have hend : c.scanned + (found - c.scanned) = found := by omega
  rw [countLines, hlength, List.range'_concat, Nat.one_mul, hend, List.foldl_append]
  rfl

theorem countLines_self (h : found ≤ c.scanned) : countLines content found c = c := by
  rw [countLines, Nat.sub_eq_zero_of_le h]
  rfl

theorem scanned_countLines (h : c.scanned ≤ found) :
    (countLines content found c).scanned = found := by
  induction found, h using Nat.le_induction with
  | base => rw [countLines_self (Nat.le_refl _)]
  | succ found hle ih =>
      rw [countLines_succ hle, countUnit]
      split_ifs <;> rfl

theorem countLines_countLines {mid : Nat} (h : c.scanned ≤ mid) (h' : mid ≤ found) :
    countLines content found (countLines content mid c) = countLines content found c := by
  induction found, h' using Nat.le_induction with
  | base => rw [countLines_self (by rw [scanned_countLines h])]
  | succ found hle ih =>
      rw [countLines_succ (by rw [scanned_countLines h]; exact hle), ih,
        countLines_succ (Nat.le_trans h hle)]

theorem countLines_inside (hl : newline ∉ l) {cursor number p : Nat} (hp : p ≤ l.length) :
    countLines (front ++ l ++ back) (front.length + p)
      ⟨cursor, number, front.length, front.length⟩ =
        ⟨cursor, number, front.length, front.length + p⟩ := by
  induction p with
  | zero => exact countLines_self (Nat.le_refl _)
  | succ p ih =>
      have hunit : (front ++ l ++ back)[front.length + p]? = some l[p] := by
        rw [List.append_assoc, List.getElem?_append_right (by omega),
          List.getElem?_append_left (by omega), Nat.add_sub_cancel_left,
          List.getElem?_eq_getElem (by omega)]
      have hne : some l[p] ≠ some newline := fun h =>
        hl (Option.some.inj h ▸ List.getElem_mem _)
      have hle : (⟨cursor, number, front.length, front.length⟩ : Cursors).scanned ≤
          front.length + p := Nat.le_add_right _ _
      rw [← Nat.add_assoc, countLines_succ hle, ih (by omega), countUnit, hunit, if_neg hne]

theorem countLines_line (hl : newline ∉ l) {cursor number : Nat} :
    countLines (front ++ l ++ newline :: back) (front.length + l.length + 1)
      ⟨cursor, number, front.length, front.length⟩ =
        ⟨cursor, number + 1, front.length + l.length + 1, front.length + l.length + 1⟩ := by
  have hunit : (front ++ l ++ newline :: back)[front.length + l.length]? = some newline := by
    rw [← List.length_append, List.getElem?_append_right (Nat.le_refl _), Nat.sub_self]
    rfl
  have hle : (⟨cursor, number, front.length, front.length⟩ : Cursors).scanned ≤
      front.length + l.length := Nat.le_add_right _ _
  rw [countLines_succ hle, countLines_inside hl (Nat.le_refl _), countUnit, hunit, if_pos rfl]

theorem lineEnd_eq (hl : newline ∉ l) (hback : back = [] ∨ ∃ rest, back = newline :: rest) {p : Nat}
    (hp : p ≤ l.length) :
    lineEnd (front ++ l ++ back) (front.length + p) = front.length + l.length := by
  have hdrop : (front ++ l ++ back).drop (front.length + p) = l.drop p ++ back := by
    rw [List.append_assoc, ← List.drop_drop, List.drop_left, List.drop_append_of_le_length hp]
  have hnot : newline ∉ l.drop p := fun h => hl (List.mem_of_mem_drop h)
  rw [lineEnd]
  rcases hback with rfl | ⟨rest, rfl⟩
  · have hnone : indexOf (front ++ l ++ []) [newline] (front.length + p) = none := by
      rw [indexOf_eq_none (List.cons_ne_nil _ _)]
      intro i hi hat
      obtain ⟨k, rfl⟩ := Nat.exists_eq_add_of_le hi
      have hstands := hat.2
      rw [← List.drop_drop, hdrop, List.append_nil] at hstands
      exact hnot (List.mem_of_mem_drop (hstands.subset List.mem_cons_self))
    rw [hnone]
    simp
  · rw [indexOf_singleton_eq_some.mpr ⟨l.drop p, rest, hdrop, hnot, rfl⟩]
    simp only [List.length_drop]
    omega

theorem slice_line :
    slice (front ++ l ++ back) front.length (front.length + l.length : Nat) = l := by
  rw [slice_natCast _ (by simp) (by simp), ← List.length_append, List.take_left,
    List.drop_left]

end CountLines

/-! ## The snippet -/

section Clip

variable {raw : Text} {p length : Nat}

theorem indent_le {front back : Text} {u : UInt16} (hu : isTrimmed u = false)
    (hraw : raw = front ++ u :: back) : raw.length - (trimStart raw).length ≤ front.length := by
  have hlength : (u :: back).length ≤ (trimStart raw).length := by
    rw [trimStart, hraw]
    clear hraw
    induction front with
    | nil => rw [List.nil_append, List.dropWhile_cons_of_neg (by simp [hu])]
    | cons v front ih =>
        rw [List.cons_append, List.dropWhile_cons]
        split_ifs
        · exact ih
        · simp
          omega
  rw [hraw] at hlength ⊢
  rw [List.length_append]
  omega

/-- The range of a clipped match covers it. -/
theorem clip_covers (hindent : raw.length - (trimStart raw).length ≤ p)
    (hle : p + length ≤ raw.length) (hpos : 0 < length) :
    let range := (clip raw p length).2
    0 ≤ range.start ∧ range.start < range.stop ∧ range.stop ≤ (clip raw p length).1.length ∧
      slice (clip raw p length).1 range.start range.stop = (raw.drop p).take length := by
  have htrim : (trimStart raw).length ≤ raw.length := List.length_dropWhile_le _ _
  obtain ⟨start, hstart, hle₁⟩ : ∃ start : Nat,
      max ((raw.length : Int) - (trimStart raw).length) (p - SNIPPET_BEFORE) = start ∧ start ≤ p :=
    ⟨max (raw.length - (trimStart raw).length) (p - 32), by simp only [SNIPPET_BEFORE]; omega,
      by omega⟩
  obtain ⟨stop, hstop, hle₂, hle₃⟩ : ∃ stop : Nat,
      min (raw.length : Int) (p + length + SNIPPET_AFTER) = stop ∧
        p + length ≤ stop ∧ stop ≤ raw.length :=
    ⟨min raw.length (p + length + 120), by simp only [SNIPPET_AFTER]; omega, by omega, by omega⟩
  have hslice : (slice raw start stop).length = stop - start := by
    rw [length_slice, resolve_natCast hle₃, resolve_natCast (by omega)]
  simp only [clip, hstart, hstop]
  generalize (if (raw.length : Int) - (trimStart raw).length < start then [ellipsis] else []) =
    before
  generalize (if (stop : Int) < raw.length then [ellipsis] else []) = after
  have hfirst : (before.length : Int) + (p - start) = (before.length + (p - start) : Nat) := by
    omega
  have hlength : (before ++ slice raw start stop ++ after).length =
      before.length + (stop - start) + after.length := by
    rw [List.length_append, List.length_append, hslice]
  have hend : (before.length : Int) + (p - start) + length =
      (before.length + (p - start) + length : Nat) := by omega
  refine ⟨by omega, by omega, ?_, ?_⟩
  · rw [hend, hlength]
    omega
  · have hskip : start + (p - start) = p := by omega
    have hlong : length ≤ ((raw.drop p).take (stop - p)).length := by
      rw [List.length_take, List.length_drop]
      omega
    rw [hend, hfirst, slice_natCast _ (by omega) (by omega), slice_natCast raw (by omega) hle₃,
      List.drop_take, Nat.add_sub_cancel_left, List.append_assoc, ← List.drop_drop,
      List.drop_left, List.drop_append_of_le_length (by simp; omega), List.drop_drop, hskip,
      List.drop_take, List.take_append_of_le_length hlong, List.take_take]
    congr 1
    omega

/-- A range within its snippet is that of a match within the line and behind the indentation. -/
theorem place_of_clip (hp : p ≤ raw.length) (hfirst : 0 ≤ (clip raw p length).2.start)
    (hlast : (clip raw p length).2.stop ≤ (clip raw p length).1.length) :
    raw.length - (trimStart raw).length ≤ p ∧ p + length ≤ raw.length := by
  have htrim : (trimStart raw).length ≤ raw.length := List.length_dropWhile_le _ _
  have hindent : raw.length - (trimStart raw).length ≤ p := by
    by_contra hlt
    have hstart : max ((raw.length : Int) - (trimStart raw).length) (p - SNIPPET_BEFORE) =
        raw.length - (trimStart raw).length := by
      simp only [SNIPPET_BEFORE]
      omega
    simp only [clip, hstart, Int.lt_irrefl, if_false, List.length_nil] at hfirst
    omega
  refine ⟨hindent, ?_⟩
  by_contra hlt
  obtain ⟨start, hstart, hle⟩ : ∃ start : Nat,
      max ((raw.length : Int) - (trimStart raw).length) (p - SNIPPET_BEFORE) = start ∧ start ≤ p :=
    ⟨max (raw.length - (trimStart raw).length) (p - 32), by simp only [SNIPPET_BEFORE]; omega,
      by omega⟩
  have hstop : min (raw.length : Int) (p + length + SNIPPET_AFTER) = raw.length := by
    simp only [SNIPPET_AFTER]
    omega
  have hslice : (slice raw start raw.length).length = raw.length - start := by
    rw [length_slice, resolve_natCast (Nat.le_refl _), resolve_natCast (by omega)]
  simp only [clip, hstart, hstop, Int.lt_irrefl, if_false, List.append_nil, List.length_append,
    hslice] at hlast
  omega

end Clip

/-! ## Matches that keep their place -/

section Place

variable {C : Casing} {needle l : Text}

/-- The text reads the needle at position `p`. -/
def ReadsAt (C : Casing) (needle text : Text) (p : Nat) : Prop :=
  p + needle.length ≤ text.length ∧ toLowerCase C ((text.drop p).take needle.length) = needle

/-- Of the positions from `position` on at which the haystack has the needle, the first one is one
at which the next line reads it, and so on behind that line; where no line is left there is none. -/
def Aligned (C : Casing) (haystack needle : Text) : Nat → Nat → List Line → Prop
  | 0, _, _ => True
  | _ + 1, position, [] => ∀ i, position ≤ i → ¬ OccursAt haystack needle i
  | limit + 1, position, l :: ls =>
    (∃ p, FirstFrom haystack needle position (l.start + p) ∧ ReadsAt C needle l.text p) ∧
      Aligned C haystack needle limit (l.start + l.text.length + 1) ls

/-- The line reads the needle where its lowercase first has it. -/
def Stays (C : Casing) (needle l : Text) : Prop :=
  ∃ p, FirstAt (toLowerCase C l) needle p ∧ ReadsAt C needle l p

def SameLength (C : Casing) (l : Text) : Prop := (toLowerCase C l).length = l.length

/-- The lines up to the last reported match keep their lengths, and so does the line of that match
if more are searched for. -/
def InPlace (C : Casing) (needle : Text) : Nat → List Text → Prop
  | 0, _ => True
  | _, [] => True
  | limit + 1, l :: ls =>
    if needle <:+: toLowerCase C l then
      Stays C needle l ∧ (0 < limit → SameLength C l) ∧ InPlace C needle limit ls
    else
      ((∃ l' ∈ ls, needle <:+: toLowerCase C l') → SameLength C l) ∧
        InPlace C needle (limit + 1) ls

/-- A match of whole characters stays where it is if they and the ones before them keep their
lengths.  A capital sigma, cut out with the match, may be lowercased otherwise. -/
theorem stays_of_chars {before found after : List Text}
    (hchars : chars l = before ++ found ++ after)
    (hfirst : FirstAt (toLowerCase C l) needle before.flatten.length)
    (hlength : found.flatten.length = needle.length)
    (hkeep : ∀ c ∈ before ++ found, (C.lower c).length = c.length)
    (hsigma : [capitalSigma] ∉ found) : Stays C needle l := by
  have hsplit : l = before.flatten ++ (found.flatten ++ after.flatten) := by
    rw [← chars_flatten l, hchars, List.flatten_append, List.flatten_append, List.append_assoc]
  have hcut : (l.drop before.flatten.length).take needle.length = found.flatten := by
    rw [hsplit, List.drop_left, ← hlength, List.take_left]
  have hfound : chars found.flatten = found :=
    (chars_of_append (s := (before ++ found).flatten)
      (chars_of_append hchars).1).2
  have hkeep' := List.forall_mem_append.mp hkeep
  -- the lowercased line, cut where the match starts and where it ends
  obtain ⟨front, hfront, hfrontLength⟩ :=
    exists_lowerChars_append (C := C) hkeep'.1 [] (found ++ after)
  have hline : toLowerCase C l = front ++ (found.flatMap C.lower ++
      lowerChars C (found.reverse ++ (before.reverse ++ [])) after) := by
    rw [toLowerCase, hchars, List.append_assoc, hfront, lowerChars_append hsigma]
  have hlower : (found.flatMap C.lower).length = needle.length := by
    rw [← hlength, List.length_flatMap, List.length_flatten]
    exact congrArg List.sum (List.map_congr_left hkeep'.2)
  have hread := hfirst.1.take_drop
  rw [hline, ← hfrontLength, List.drop_left, ← hlower, List.take_left] at hread
  refine ⟨_, hfirst, ?_, ?_⟩
  · rw [hsplit, List.length_append, List.length_append]
    omega
  · rw [hcut, toLowerCase, hfound, lowerChars_eq_flatMap hsigma]
    exact hread

theorem not_trimmed_of_trim {u : UInt16} {s : Text} (h : trim (u :: s) = u :: s) :
    isTrimmed u = false := by
  by_contra hu
  have hstart : (trimStart (u :: s)).length ≤ s.length := by
    rw [trimStart, List.dropWhile_cons_of_pos (by simpa using hu)]
    exact List.length_dropWhile_le _ _
  have hlength := congrArg List.length h
  have hle := List.length_dropWhile_le isTrimmed (trimStart (u :: s)).reverse
  rw [trim, List.length_reverse, List.length_cons] at hlength
  rw [List.length_reverse] at hle
  omega

/-- White space is kept at the start of a string, and comes from there only. -/
theorem trimmed_head_iff {s : Text} {u v : UInt16} {rest more : Text} (hs : s = u :: rest)
    (ht : toLowerCase C s = v :: more) : isTrimmed u = true ↔ isTrimmed v = true := by
  obtain ⟨c, cs, hchars⟩ : ∃ c cs, chars s = c :: cs := by
    rw [hs]
    exact List.exists_cons_of_ne_nil fun h => by simpa [h] using chars_flatten (u :: rest)
  have hc : IsChar c := isChar_of_mem_chars (hchars ▸ List.mem_cons_self)
  have hflatten : c ++ cs.flatten = u :: rest := by rw [← hs, ← chars_flatten s, hchars]; rfl
  have hhead : v ∈ lowerAt C [] c cs := by
    rw [toLowerCase, hchars, lowerChars] at ht
    obtain ⟨w, ws, hw⟩ := List.exists_cons_of_ne_nil (lowerAt_ne_nil (C := C) hc.ne_nil [] cs)
    rw [hw] at ht ⊢
    rw [← (List.cons.inj ht).1]
    exact List.mem_cons_self
  constructor
  · intro hu
    have hcu : c = [u] := by
      rcases hc with ⟨w, rfl⟩ | ⟨w, w', rfl, hw, -⟩
      · rw [(List.cons.inj hflatten).1]
      · rw [(List.cons.inj hflatten).1] at hw
        have hsurrogate := not_surrogate_of_fixed (.inl hu)
        simp [isSurrogate, hw] at hsurrogate
    have hsigma : [u] ≠ [capitalSigma] := fun h => by
      rw [List.singleton_inj.mp h] at hu
      exact absurd hu (by decide)
    rw [hcu, lowerAt_of_ne hsigma, C.lower_fixed (.inl hu), List.mem_singleton] at hhead
    rw [hhead]
    exact hu
  · intro hv
    have hcv := mem_lowerAt hc (.inl hv) hhead
    rw [hcv] at hflatten
    rw [← (List.cons.inj hflatten).1]
    exact hv

theorem indent_le_of_readsAt {query : Text} {p : Nat} (hne : query ≠ [])
    (htrim : trim query = query) (h : ReadsAt C (toLowerCase C query) l p) :
    l.length - (trimStart l).length ≤ p := by
  obtain ⟨hle, hlower⟩ := h
  obtain ⟨q, qs, hq⟩ := List.exists_cons_of_ne_nil hne
  obtain ⟨v, more, hv⟩ := List.exists_cons_of_ne_nil (toLowerCase_ne_nil (C := C) hne)
  have htext : (l.drop p).take (toLowerCase C query).length ≠ [] := fun h => by
    rw [h] at hlower
    exact toLowerCase_ne_nil (C := C) hne hlower.symm
  obtain ⟨u, us, hu⟩ := List.exists_cons_of_ne_nil htext
  have hq' : isTrimmed q = false := by
    rw [hq] at htrim
    exact not_trimmed_of_trim htrim
  have hquery := trimmed_head_iff hq hv
  have hmatch := trimmed_head_iff hu (hlower.trans hv)
  have hu' : isTrimmed u = false := by
    rw [← Bool.not_eq_true, hmatch, ← hquery, hq']
    exact Bool.false_ne_true
  have hline : l = l.take p ++ u :: (us ++ (l.drop p).drop (toLowerCase C query).length) := by
    rw [← List.cons_append, ← hu, List.take_append_drop, List.take_append_drop]
  have hindent := indent_le hu' hline
  rwa [List.length_take_of_le (by omega)] at hindent

/-- What is cut out around a position of a line reports it exactly if the line reads the needle
there. -/
theorem reports_iff {query : Text} {number start p : Nat} (hne : query ≠ [])
    (htrim : trim query = query) (hp : p ≤ l.length) :
    Reports C (toLowerCase C query)
      ⟨number, (clip l p (toLowerCase C query).length).1,
        [(clip l p (toLowerCase C query).length).2], start + p⟩ ⟨number, start, l⟩ ↔
      ReadsAt C (toLowerCase C query) l p := by
  have hpos := List.length_pos_iff.mpr (toLowerCase_ne_nil (C := C) hne)
  constructor
  · rintro ⟨-, -, range, hrange, hfirst, -, hlast, hreads⟩
    obtain rfl := List.singleton_inj.mp hrange
    obtain ⟨hindent, hle⟩ := place_of_clip hp hfirst hlast
    obtain ⟨-, -, -, hslice⟩ := clip_covers hindent hle hpos
    exact ⟨hle, hslice ▸ hreads⟩
  · intro h
    obtain ⟨hfirst, hlt, hlast, hslice⟩ := clip_covers (indent_le_of_readsAt hne htrim h) h.1 hpos
    have hle := h.1
    refine ⟨rfl, ⟨Nat.le_add_right _ _, ?_⟩, _, rfl, hfirst, hlt, hlast, hslice ▸ h.2⟩
    change start + p < start + l.length
    omega

end Place

/-! ## The outer loop -/

section Loop

variable {C : Casing} {query : Text}

theorem scanContent_found {front l back haystack needle : Text} {c : Cursors}
    {number p rounds : Nat} (hl : newline ∉ l)
    (hback : back = [] ∨ ∃ rest, back = newline :: rest) (hp : p ≤ l.length)
    (hscanned : c.scanned ≤ front.length)
    (hcount : countLines (front ++ l ++ back) front.length c =
      ⟨c.cursor, number, front.length, front.length⟩)
    (hfound : indexOf haystack needle c.cursor = some (front.length + p)) :
    scanContent (front ++ l ++ back) haystack needle (rounds + 1) c =
      ⟨number, (clip l p needle.length).1, [(clip l p needle.length).2], front.length + p⟩ ::
        scanContent (front ++ l ++ back) haystack needle rounds
          ⟨front.length + l.length + 1, number, front.length, front.length + p⟩ := by
  have hcount' : countLines (front ++ l ++ back) (front.length + p) c =
      ⟨c.cursor, number, front.length, front.length + p⟩ := by
    rw [← countLines_countLines hscanned (Nat.le_add_right _ _), hcount, countLines_inside hl hp]
  have hcolumn : ((front.length + p : Nat) : Int) - front.length = p := by omega
  rw [scanContent, hfound]
  simp only [hcount', lineEnd_eq hl hback hp, slice_line, hcolumn]

theorem hits_linesFrom_cons (needle : Text) (number start : Nat) (l : Text) (ls : List Text) :
    hits C needle (linesFrom number start (l :: ls)) =
      if needle <:+: toLowerCase C l then
        ⟨number, start, l⟩ :: hits C needle (linesFrom (number + 1) (start + l.length + 1) ls)
      else hits C needle (linesFrom (number + 1) (start + l.length + 1) ls) := by
  simp only [linesFrom, hits, List.filter_cons, decide_eq_true_eq]

theorem scanContent_nil_iff {content haystack needle : Text} {limit : Nat} {c : Cursors}
    (hne : needle ≠ []) :
    List.Forall₂ (Reports C needle) (scanContent content haystack needle limit c)
        (([] : List Line).take limit) ↔
      Aligned C haystack needle limit c.cursor [] := by
  rw [List.take_nil, List.forall₂_nil_right_iff]
  cases limit with
  | zero => exact iff_of_true rfl trivial
  | succ limit =>
      rw [Aligned, ← indexOf_eq_none hne, scanContent]
      cases indexOf haystack needle c.cursor with
      | none => exact iff_of_true rfl rfl
      | some found => exact iff_of_false (List.cons_ne_nil _ _) (Option.some_ne_none found)

/-- The cursors before a line: what they count up to there is its number and its start. -/
structure AtLine (content front rest : Text) (c : Cursors) (number : Nat) : Prop where
  content_eq : content = front ++ rest
  scanned_le : c.scanned ≤ front.length
  counted : countLines content front.length c = ⟨c.cursor, number, front.length, front.length⟩

section AtLine

variable {content haystack front l rest : Text} {c : Cursors} {number p : Nat}

theorem AtLine.next (hl : newline ∉ l) (h : AtLine content front (l ++ newline :: rest) c number) :
    AtLine content (front ++ l ++ [newline]) rest c (number + 1) where
  content_eq := by simp [h.content_eq]
  scanned_le := by
    have hle := h.scanned_le
    simp only [List.length_append, List.length_singleton]
    omega
  counted := by
    have hline : countLines (front ++ l ++ newline :: rest) (front.length + l.length + 1)
        ⟨c.cursor, number, front.length, front.length⟩ =
          ⟨c.cursor, number + 1, front.length + l.length + 1, front.length + l.length + 1⟩ :=
      countLines_line hl
    have hcontent : content = front ++ l ++ newline :: rest := by simp [h.content_eq]
    have hlength : (front ++ l ++ [newline]).length = front.length + l.length + 1 := by
      simp [Nat.add_assoc]
    rw [hlength, ← countLines_countLines h.scanned_le (by omega), h.counted, hcontent, hline]

theorem AtLine.behind (hl : newline ∉ l) (hp : p ≤ l.length)
    (h : AtLine content front (l ++ newline :: rest) c number) :
    AtLine content (front ++ l ++ [newline]) rest
      ⟨front.length + l.length + 1, number, front.length, front.length + p⟩ (number + 1) where
  content_eq := by simp [h.content_eq]
  scanned_le := by
    simp only [List.length_append, List.length_singleton]
    omega
  counted := by
    have hcontent : content = front ++ l ++ newline :: rest := by simp [h.content_eq]
    have hlength : (front ++ l ++ [newline]).length = front.length + l.length + 1 := by
      simp [Nat.add_assoc]
    have hinside : countLines (front ++ l ++ newline :: rest) (front.length + p)
        ⟨front.length + l.length + 1, number, front.length, front.length⟩ =
          ⟨front.length + l.length + 1, number, front.length, front.length + p⟩ :=
      countLines_inside hl hp
    have hscanned : (⟨front.length + l.length + 1, number, front.length, front.length⟩ :
      Cursors).scanned ≤ front.length + p := Nat.le_add_right _ _
    rw [hlength, hcontent]
    calc
      _ = countLines (front ++ l ++ newline :: rest) (front.length + l.length + 1)
            (countLines (front ++ l ++ newline :: rest) (front.length + p)
              ⟨front.length + l.length + 1, number, front.length, front.length⟩) := by rw [hinside]
      _ = countLines (front ++ l ++ newline :: rest) (front.length + l.length + 1)
            ⟨front.length + l.length + 1, number, front.length, front.length⟩ :=
          countLines_countLines hscanned (by omega)
      _ = _ := countLines_line hl

/-- The next result reports the next line with a match exactly if the first position found is one at
which that line reads the query; the cursors are behind it then. -/
theorem AtLine.report_iff {back : Text} {limit : Nat} {more : List Line} {rest : Prop}
    (hne : query ≠ []) (htrim : trim query = query) (hl : newline ∉ l)
    (hback : back = [] ∨ ∃ rest, back = newline :: rest)
    (h : AtLine content front (l ++ back) c number)
    (hmore : ∀ p ≤ l.length, List.Forall₂ (Reports C (toLowerCase C query))
      (scanContent content haystack (toLowerCase C query) limit
        ⟨front.length + l.length + 1, number, front.length, front.length + p⟩) more ↔ rest) :
    List.Forall₂ (Reports C (toLowerCase C query))
        (scanContent content haystack (toLowerCase C query) (limit + 1) c)
        (⟨number, front.length, l⟩ :: more) ↔
      (∃ p, FirstFrom haystack (toLowerCase C query) c.cursor (front.length + p) ∧
        ReadsAt C (toLowerCase C query) l p) ∧ rest := by
  have hneedle := toLowerCase_ne_nil (C := C) hne
  have hcontent : content = front ++ l ++ back := by rw [h.content_eq, List.append_assoc]
  have hcounted := h.counted
  rw [hcontent] at hcounted hmore ⊢
  constructor
  · intro hall
    -- a result with an offset in the line was found there
    obtain ⟨p, hp, hfound⟩ : ∃ p ≤ l.length,
        indexOf haystack (toLowerCase C query) c.cursor = some (front.length + p) := by
      rw [scanContent] at hall
      cases hfound : indexOf haystack (toLowerCase C query) c.cursor with
      | none =>
          rw [hfound] at hall
          cases hall
      | some found =>
          rw [hfound] at hall
          have hinside := (List.forall₂_cons.mp hall).1.inside
          simp only at hinside
          exact ⟨found - front.length, by omega, congrArg some (by omega)⟩
    rw [scanContent_found hl hback hp h.scanned_le hcounted hfound] at hall
    obtain ⟨hreport, hrest⟩ := List.forall₂_cons.mp hall
    exact ⟨⟨p, (indexOf_eq_some hneedle).mp hfound, (reports_iff hne htrim hp).mp hreport⟩,
      (hmore p hp).mp hrest⟩
  · rintro ⟨⟨p, hfirst, hreads⟩, hrest⟩
    have hp : p ≤ l.length := Nat.le_trans (Nat.le_add_right _ _) hreads.1
    have hfound := (indexOf_eq_some hneedle).mpr hfirst
    rw [scanContent_found hl hback hp h.scanned_le hcounted hfound]
    exact .cons ((reports_iff hne htrim hp).mpr hreads) ((hmore p hp).mpr hrest)

end AtLine

/-- The loop reports the hits of the lines it has before it exactly if they are aligned. -/
theorem scanContent_reports_iff (hne : query ≠ []) (htrim : trim query = query) (l : Text)
    (ls : List Text) (hls : ∀ x ∈ l :: ls, newline ∉ x) {content haystack front : Text}
    {c : Cursors} {number limit : Nat}
    (hat : AtLine content front ([newline].intercalate (l :: ls)) c number) :
    List.Forall₂ (Reports C (toLowerCase C query))
        (scanContent content haystack (toLowerCase C query) limit c)
        ((hits C (toLowerCase C query) (linesFrom number front.length (l :: ls))).take limit) ↔
      Aligned C haystack (toLowerCase C query) limit c.cursor
        (hits C (toLowerCase C query) (linesFrom number front.length (l :: ls))) := by
  have hneedle := toLowerCase_ne_nil (C := C) hne
  induction ls generalizing l front c number limit with
  | nil =>
      have hl : newline ∉ l := hls l List.mem_cons_self
      rw [List.intercalate_singleton, ← List.append_nil l] at hat
      rw [hits_linesFrom_cons]
      by_cases hhit : toLowerCase C query <:+: toLowerCase C l
      · obtain _ | limit := limit
        · exact iff_of_true .nil trivial
        rw [if_pos hhit, List.take_succ_cons]
        exact hat.report_iff hne htrim hl (.inl rfl) fun _ _ => scanContent_nil_iff hneedle
      · rw [if_neg hhit]
        exact scanContent_nil_iff hneedle
  | cons m ms ih =>
      have hl : newline ∉ l := hls l List.mem_cons_self
      have hms : ∀ x ∈ m :: ms, newline ∉ x := fun x hx => hls x (List.mem_cons_of_mem _ hx)
      have hlength : front.length + l.length + 1 = (front ++ l ++ [newline]).length := by
        simp [Nat.add_assoc]
      rw [List.intercalate_cons_cons, List.append_assoc, List.singleton_append] at hat
      rw [hits_linesFrom_cons]
      by_cases hhit : toLowerCase C query <:+: toLowerCase C l
      · obtain _ | limit := limit
        · exact iff_of_true .nil trivial
        rw [if_pos hhit, List.take_succ_cons]
        refine hat.report_iff hne htrim hl (.inr ⟨_, rfl⟩) fun p hp => ?_
        rw [hlength]
        exact ih m hms (hlength ▸ hat.behind hl hp)
      · rw [if_neg hhit, hlength]
        exact ih m hms (hat.next hl)

/-! ## Lines that keep their lengths -/

/-- The lowercase of the rest of the content stands behind `hfront`, and nothing is found before it
from the position on. -/
structure Behind (C : Casing) (haystack needle hfront rest : Text) (position : Nat) : Prop where
  haystack_eq : haystack = hfront ++ toLowerCase C rest
  position_le : position ≤ hfront.length
  skipped : ∀ i, position ≤ i → OccursAt haystack needle i → hfront.length ≤ i

section Behind

variable {haystack needle hfront l rest : Text} {position start p : Nat}

theorem newline_not_mem_toLowerCase (h : newline ∉ query) : newline ∉ toLowerCase C query :=
  fun hmem => h (mem_of_mem_toLowerCase (.inl (by decide)) hmem)

theorem Behind.next (hneedle : newline ∉ needle) (hnot : ¬ needle <:+: toLowerCase C l)
    (h : Behind C haystack needle hfront (l ++ newline :: rest) position) :
    Behind C haystack needle (hfront ++ toLowerCase C l ++ [newline]) rest position where
  haystack_eq := by simp [h.haystack_eq, toLowerCase_append_cons (.inl rfl)]
  position_le := by
    have hle := h.position_le
    simp only [List.length_append]
    omega
  skipped i hi hat := by
    obtain ⟨k, rfl⟩ := Nat.exists_eq_add_of_le (h.skipped i hi hat)
    rw [h.haystack_eq, occursAt_append_right, toLowerCase_append_cons (.inl rfl),
      occursAt_append_cons hneedle] at hat
    rcases hat with hat | ⟨j, rfl, -⟩
    · exact absurd (isInfix_iff.mpr ⟨k, hat⟩) hnot
    · simp only [List.length_append, List.length_singleton]
      omega

theorem Behind.behind (hsame : hfront.length = start) (hlower : SameLength C l)
    (h : Behind C haystack needle hfront (l ++ newline :: rest) position) :
    Behind C haystack needle (hfront ++ toLowerCase C l ++ [newline]) rest
      (start + l.length + 1) where
  haystack_eq := by simp [h.haystack_eq, toLowerCase_append_cons (.inl rfl)]
  position_le := by
    rw [SameLength] at hlower
    simp only [List.length_append, List.length_singleton]
    omega
  skipped i hi _ := by
    rw [SameLength] at hlower
    simp only [List.length_append, List.length_singleton]
    omega

theorem Behind.firstFrom {back : Text} (hneedle : newline ∉ needle)
    (hback : back = [] ∨ ∃ rest, back = newline :: rest)
    (h : Behind C haystack needle hfront (l ++ back) position)
    (hfirst : FirstAt (toLowerCase C l) needle p) :
    FirstFrom haystack needle position (hfront.length + p) := by
  have hrest : FirstAt (toLowerCase C (l ++ back)) needle p := by
    rcases hback with rfl | ⟨rest, rfl⟩
    · rwa [List.append_nil]
    · rw [toLowerCase_append_cons (.inl rfl)]
      exact hfirst.append_cons hneedle _
  have hle := h.position_le
  refine ⟨?_, by omega, fun j hj hlt hat => ?_⟩
  · rw [h.haystack_eq]
    exact occursAt_append_right.mpr hrest.1
  · obtain ⟨k, rfl⟩ := Nat.exists_eq_add_of_le (h.skipped j hj hat)
    rw [h.haystack_eq, occursAt_append_right] at hat
    exact hrest.2 k (by omega) hat

end Behind

theorem aligned_lines {needle : Text} (hne : needle ≠ []) (hneedle : newline ∉ needle) (l : Text)
    (ls : List Text) {haystack hfront : Text} {position number start limit : Nat}
    (hat : Behind C haystack needle hfront ([newline].intercalate (l :: ls)) position)
    (hsame : (∃ x ∈ l :: ls, needle <:+: toLowerCase C x) → hfront.length = start)
    (hplace : InPlace C needle limit (l :: ls)) :
    Aligned C haystack needle limit position
      (hits C needle (linesFrom number start (l :: ls))) := by
  induction ls generalizing l hfront position number start limit with
  | nil =>
      rw [List.intercalate_singleton, ← List.append_nil l] at hat
      obtain _ | limit := limit
      · trivial
      rw [hits_linesFrom_cons]
      by_cases hhit : needle <:+: toLowerCase C l
      · rw [InPlace, if_pos hhit] at hplace
        obtain ⟨⟨p, hfirst, hreads⟩, hlower, -⟩ := hplace
        have hsame' := hsame ⟨l, List.mem_cons_self, hhit⟩
        rw [if_pos hhit]
        refine ⟨⟨p, hsame' ▸ hat.firstFrom hneedle (.inl rfl) hfirst, hreads⟩, ?_⟩
        obtain _ | limit := limit
        · trivial
        intro i hi hocc
        have hlower' : (toLowerCase C l).length = l.length := hlower (Nat.succ_pos _)
        have hlt := hocc.lt_length hne
        rw [hat.haystack_eq, List.append_nil, List.length_append] at hlt
        simp only at hi
        omega
      · rw [if_neg hhit]
        intro i hi hocc
        obtain ⟨k, rfl⟩ := Nat.exists_eq_add_of_le (hat.skipped i hi hocc)
        rw [hat.haystack_eq, occursAt_append_right, List.append_nil] at hocc
        exact hhit (isInfix_iff.mpr ⟨k, hocc⟩)
  | cons m ms ih =>
      obtain _ | limit := limit
      · trivial
      rw [List.intercalate_cons_cons, List.append_assoc, List.singleton_append] at hat
      rw [hits_linesFrom_cons]
      by_cases hhit : needle <:+: toLowerCase C l
      · rw [InPlace, if_pos hhit] at hplace
        obtain ⟨⟨p, hfirst, hreads⟩, hlower, hmore⟩ := hplace
        have hsame' := hsame ⟨l, List.mem_cons_self, hhit⟩
        rw [if_pos hhit]
        refine ⟨⟨p, hsame' ▸ hat.firstFrom hneedle (.inr ⟨_, rfl⟩) hfirst, hreads⟩, ?_⟩
        obtain _ | limit := limit
        · trivial
        have hlower' : (toLowerCase C l).length = l.length := hlower (Nat.succ_pos _)
        refine ih m (hat.behind hsame' hlower') (fun _ => ?_) hmore
        simp only [List.length_append, List.length_singleton]
        omega
      · rw [InPlace, if_neg hhit] at hplace
        rw [if_neg hhit]
        refine ih m (hat.next hneedle hhit) (fun hmore => ?_) hplace.2
        have hlower : (toLowerCase C l).length = l.length := hplace.1 hmore
        obtain ⟨x, hx, hhit'⟩ := hmore
        have hsame' := hsame ⟨x, List.mem_cons_of_mem _ hx, hhit'⟩
        simp only [List.length_append, List.length_singleton]
        omega

/-- Where lowercasing keeps the lengths of the lines, they are aligned. -/
theorem aligned_of_inPlace (content : Text) (limit : Nat) (hne : query ≠ [])
    (hquery : newline ∉ query)
    (hplace : InPlace C (toLowerCase C query) limit (content.splitOn newline)) :
    Aligned C (toLowerCase C content) (toLowerCase C query) limit 0
      (hits C (toLowerCase C query) (lines content)) := by
  obtain ⟨l, ls, hsplit⟩ := List.exists_cons_of_ne_nil (List.splitOn_ne_nil newline content)
  have hcontent : [newline].intercalate (l :: ls) = content := by
    rw [← hsplit, List.intercalate_splitOn]
  have hat : Behind C (toLowerCase C content) (toLowerCase C query) []
      ([newline].intercalate (l :: ls)) 0 :=
    ⟨by rw [hcontent]; rfl, Nat.le_refl _, fun i _ _ => Nat.zero_le i⟩
  rw [hsplit] at hplace
  rw [lines, hsplit]
  exact aligned_lines (toLowerCase_ne_nil hne) (newline_not_mem_toLowerCase hquery) l ls hat
    (fun _ => rfl) hplace

/-! ## What is reported -/

/-- Of the lines that hold the query the first `limit` are reported, one by one, exactly if the
positions in the lowercased content are right in the content. -/
theorem matchContent_reports_iff (content : Text) (limit : Nat) (hne : query ≠ [])
    (htrim : trim query = query) :
    List.Forall₂ (Reports C (toLowerCase C query)) (matchContent C content query limit)
        ((hits C (toLowerCase C query) (lines content)).take limit) ↔
      Aligned C (toLowerCase C content) (toLowerCase C query) limit 0
        (hits C (toLowerCase C query) (lines content)) := by
  obtain ⟨l, ls, hsplit⟩ := List.exists_cons_of_ne_nil (List.splitOn_ne_nil newline content)
  have hcontent : [newline].intercalate (l :: ls) = content := by
    rw [← hsplit, List.intercalate_splitOn]
  have hls : ∀ x ∈ l :: ls, newline ∉ x := fun x hx =>
    Lib.PathPrefix.sep_not_mem_segment (hsplit ▸ hx)
  have hat : AtLine content [] ([newline].intercalate (l :: ls)) ⟨0, 1, 0, 0⟩ 1 :=
    ⟨hcontent.symm, Nat.le_refl _, countLines_self (Nat.le_refl _)⟩
  rw [matchContent, if_neg (by simpa using hne), lines, hsplit]
  exact scanContent_reports_iff hne htrim l ls hls hat

/-- Capitals read small letters, the final sigma too.  What comes behind the last match may get
longer. -/
theorem matchContent_reports_two :
    List.Forall₂ (Reports latinGreek (units "οδος"))
      (matchContent latinGreek (units "ena\n  a ΟΔΟΣ\nοδος İ") (units "Οδος") 2)
      [⟨2, 4, units "  a ΟΔΟΣ"⟩, ⟨3, 13, units "οδος İ"⟩] := by
  have heq : toLowerCase latinGreek (units "Οδος") = units "οδος" := by decide
  have hplace : InPlace latinGreek (toLowerCase latinGreek (units "Οδος")) 2
      ((units "ena\n  a ΟΔΟΣ\nοδος İ").splitOn newline) := by
    have hlines : (units "ena\n  a ΟΔΟΣ\nοδος İ").splitOn newline =
        [units "ena", units "  a ΟΔΟΣ", units "οδος İ"] := by decide
    rw [heq, hlines, InPlace, if_neg (by decide), InPlace, if_pos (by decide), InPlace,
      if_pos (by decide)]
    refine ⟨fun _ => by unfold SameLength; decide, ⟨4, (firstAt_iff (by decide)).mpr (by decide),
      by decide, by decide⟩, fun _ => by unfold SameLength; decide, ?_,
      fun h => absurd h (Nat.lt_irrefl 0), trivial⟩
    exact stays_of_chars (by decide : chars (units "οδος İ") = [] ++ chars (units "οδος") ++
      chars (units " İ")) ((firstAt_iff (by decide)).mpr (by decide)) (by decide) (by decide)
      (by decide)
  have hreports := (matchContent_reports_iff (units "ena\n  a ΟΔΟΣ\nοδος İ") 2
    (by decide : units "Οδος" ≠ []) (by decide)).mpr
      (aligned_of_inPlace _ 2 (by decide) (by decide) hplace)
  have hhits : (hits latinGreek (toLowerCase latinGreek (units "Οδος"))
      (lines (units "ena\n  a ΟΔΟΣ\nοδος İ"))).take 2 =
        [⟨2, 4, units "  a ΟΔΟΣ"⟩, ⟨3, 13, units "οδος İ"⟩] := by decide
  rw [hhits, heq] at hreports
  exact hreports

/-- Two letters that get longer put the match behind the end of the content, where the search
starts again: the line is reported as often as the limit allows. -/
theorem dotted_capitals_repeat :
    (matchContent latinGreek (units "İİa") (units "a") 2).map (fun r => (r.line, r.offset)) =
        [(1, 4), (1, 4)] ∧
      hits latinGreek (units "a") (lines (units "İİa")) = [⟨1, 0, units "İİa"⟩] ∧
      ¬ List.Forall₂ (Reports latinGreek (units "a"))
        (matchContent latinGreek (units "İİa") (units "a") 2)
        ((hits latinGreek (units "a") (lines (units "İİa"))).take 2) := by
  refine ⟨by decide, by decide, fun h => ?_⟩
  have hlength := h.length_eq
  revert hlength
  decide

end Loop

end CollabIDE.Search.ContentMatch
