import CollabIDE.Search.Match
/-!
# What is drawn of a text with ranges

`Highlight` cuts a text at the ranges it does not skip.  A range is skipped if
it starts before the last one ended or ends beyond the text; one that ends
before it starts is not, and takes the cursor back.
-/

namespace CollabIDE.Search.Highlight

open CollabIDE.Search.Match CollabIDE.Search.Strings

variable {α : Type}

structure Part (α : Type) where
  text : List α
  marked : Bool
  deriving DecidableEq

/-- The variables of the loop. -/
structure Drawing (α : Type) where
  parts : List (Part α)
  cursor : Int

/-- One round of the loop. -/
def drawRange (text : List α) (s : Drawing α) (range : Range) : Drawing α :=
  if range.start < s.cursor ∨ range.stop > text.length then s
  else
    let parts :=
      if range.start > s.cursor then s.parts ++ [⟨slice text s.cursor range.start, false⟩]
      else s.parts
    ⟨parts ++ [⟨slice text range.start range.stop, true⟩], range.stop⟩

/-- The parts that are rendered. -/
def highlight (text : List α) (ranges : List Range) : List (Part α) :=
  if ranges.length = 0 then [⟨text, false⟩]
  else
    let s := ranges.foldl (drawRange text) ⟨[], 0⟩
    if s.cursor < text.length then s.parts ++ [⟨slice text s.cursor text.length, false⟩]
    else s.parts

def spelled (parts : List (Part α)) : List α := parts.flatMap Part.text

/-- Of the ranges that are not skipped, none starts before the last one ended or ends before it
starts, as `slice` takes the positions. -/
def Forward (length : Nat) : Int → List Range → Prop
  | _, [] => True
  | cursor, range :: ranges =>
    if range.start < cursor ∨ range.stop > length then Forward length cursor ranges
    else
      resolve length cursor ≤ resolve length range.start ∧
        resolve length range.start ≤ resolve length range.stop ∧
        Forward length range.stop ranges

/-! ## One round -/

variable {text : List α} {s : Drawing α} {range : Range} {ranges : List Range}

/-- What comes before the cursor, and more. -/
def excess (text : List α) (s : Drawing α) : Int :=
  (spelled s.parts).length - resolve text.length s.cursor

theorem spelled_append (parts more : List (Part α)) :
    spelled (parts ++ more) = spelled parts ++ spelled more := List.flatMap_append

theorem drawRange_skipped (h : range.start < s.cursor ∨ range.stop > text.length) :
    drawRange text s range = s := if_pos h

theorem spelled_drawRange (h : ¬ (range.start < s.cursor ∨ range.stop > text.length)) :
    spelled (drawRange text s range).parts = spelled s.parts ++
        slice text s.cursor range.start ++ slice text range.start range.stop ∧
      (drawRange text s range).cursor = range.stop := by
  rw [drawRange, if_neg h]
  refine ⟨?_, rfl⟩
  by_cases hgap : range.start > s.cursor
  · simp [hgap, spelled]
  · obtain heq : range.start = s.cursor := by omega
    have hempty : slice text s.cursor range.start = [] := by
      rw [heq]
      exact List.eq_nil_of_length_eq_zero (by rw [length_slice, Nat.sub_self])
    rw [hempty]
    simp [hgap, spelled]

/-- The excess never gets smaller, and a step back makes it larger. -/
theorem excess_drawRange (h : ¬ (range.start < s.cursor ∨ range.stop > text.length)) :
    excess text s ≤ excess text (drawRange text s range) ∧
      (¬ (resolve text.length s.cursor ≤ resolve text.length range.start ∧
        resolve text.length range.start ≤ resolve text.length range.stop) →
          excess text s < excess text (drawRange text s range)) := by
  obtain ⟨hspelled, hcursor⟩ := spelled_drawRange h
  simp only [excess, hspelled, hcursor, List.length_append, length_slice]
  omega

theorem excess_le_foldl (s : Drawing α) (ranges : List Range) :
    excess text s ≤ excess text (ranges.foldl (drawRange text) s) := by
  induction ranges generalizing s with
  | nil => exact Int.le_refl _
  | cons range ranges ih =>
      rw [List.foldl_cons]
      by_cases hskip : range.start < s.cursor ∨ range.stop > text.length
      · rw [drawRange_skipped hskip]
        exact ih s
      · exact Int.le_trans (excess_drawRange hskip).1 (ih _)

theorem take_append_slice {start stop : Int}
    (h : resolve text.length start ≤ resolve text.length stop) :
    text.take (resolve text.length start) ++ slice text start stop =
      text.take (resolve text.length stop) := by
  have hfront : text.take (resolve text.length start) =
      (text.take (resolve text.length stop)).take (resolve text.length start) := by
    rw [List.take_take, Nat.min_eq_left h]
  rw [hfront, slice, List.take_append_drop]

/-! ## The whole loop -/

/-- Going forward the parts spell the text up to the cursor; otherwise there is too much. -/
theorem foldl_drawRange (hs : spelled s.parts = text.take (resolve text.length s.cursor)) :
    (Forward text.length s.cursor ranges →
      spelled (ranges.foldl (drawRange text) s).parts =
        text.take (resolve text.length (ranges.foldl (drawRange text) s).cursor)) ∧
      (¬ Forward text.length s.cursor ranges →
        0 < excess text (ranges.foldl (drawRange text) s)) := by
  induction ranges generalizing s with
  | nil => exact ⟨fun _ => hs, fun h => absurd trivial h⟩
  | cons range ranges ih =>
      rw [List.foldl_cons, Forward]
      by_cases hskip : range.start < s.cursor ∨ range.stop > text.length
      · rw [drawRange_skipped hskip, if_pos hskip]
        exact ih hs
      · rw [if_neg hskip]
        obtain ⟨hspelled, hcursor⟩ := spelled_drawRange hskip
        by_cases hforward : resolve text.length s.cursor ≤ resolve text.length range.start ∧
            resolve text.length range.start ≤ resolve text.length range.stop
        · have hnext : spelled (drawRange text s range).parts =
              text.take (resolve text.length (drawRange text s range).cursor) := by
            rw [hspelled, hcursor, hs, take_append_slice hforward.1, take_append_slice hforward.2]
          have hrest := ih hnext
          rw [hcursor] at hrest
          exact ⟨fun h => hrest.1 h.2.2,
            fun h => hrest.2 fun h' => h ⟨hforward.1, hforward.2, h'⟩⟩
        · refine ⟨fun h => absurd ⟨h.1, h.2.1⟩ hforward, fun _ => ?_⟩
          have hzero : excess text s = 0 := by
            rw [excess, hs, List.length_take_of_le (resolve_le _ _), Int.sub_self]
          have hstep := (excess_drawRange hskip).2 hforward
          have hrest : excess text (drawRange text s range) ≤ _ := excess_le_foldl _ ranges
          omega

theorem cursor_le (hs : s.cursor ≤ text.length) (ranges : List Range) :
    (ranges.foldl (drawRange text) s).cursor ≤ text.length := by
  induction ranges generalizing s with
  | nil => exact hs
  | cons range ranges ih =>
      rw [List.foldl_cons]
      apply ih
      by_cases hskip : range.start < s.cursor ∨ range.stop > text.length
      · rw [drawRange_skipped hskip]
        exact hs
      · rw [(spelled_drawRange hskip).2]
        omega

theorem spelled_highlight (hne : ranges ≠ []) :
    let s := ranges.foldl (drawRange text) ⟨[], 0⟩
    spelled (highlight text ranges) =
      spelled s.parts ++ text.drop (resolve text.length s.cursor) := by
  intro s
  have hcursor : s.cursor ≤ text.length := cursor_le (by simp) ranges
  rw [highlight, if_neg (by simpa using hne)]
  by_cases hrest : s.cursor < text.length
  · simp only [s] at hrest ⊢
    rw [if_pos hrest, spelled_append, slice, resolve_natCast (Nat.le_refl _), List.take_length]
    simp [spelled]
  · have hend : s.cursor = text.length := by omega
    simp only [s] at hrest hend ⊢
    rw [if_neg hrest, hend, resolve_natCast (Nat.le_refl _), List.drop_length, List.append_nil]

/-- What is drawn spells the text exactly if no range that is not skipped goes back. -/
theorem spelled_highlight_iff (text : List α) (ranges : List Range) :
    spelled (highlight text ranges) = text ↔ Forward text.length 0 ranges := by
  cases ranges with
  | nil => exact iff_of_true (by simp [highlight, spelled]) trivial
  | cons range ranges =>
      have hstart : spelled (⟨[], 0⟩ : Drawing α).parts =
          text.take (resolve text.length (⟨[], 0⟩ : Drawing α).cursor) := by
        simp [spelled, resolve]
      obtain ⟨hgood, hbad⟩ := @foldl_drawRange _ text _ (range :: ranges) hstart
      rw [spelled_highlight (List.cons_ne_nil _ _)]
      constructor
      · intro heq
        by_contra hnot
        have hexcess := hbad hnot
        have hlength := congrArg List.length heq
        rw [excess] at hexcess
        rw [List.length_append, List.length_drop] at hlength
        have hle := resolve_le text.length
          ((range :: ranges).foldl (drawRange text) ⟨[], 0⟩).cursor
        omega
      · intro h
        rw [hgood h, List.take_append_drop]

/-- A range that ends before it starts: two letters are drawn twice. -/
theorem backward_range_repeats :
    spelled (highlight (units "abcdef") [⟨3, 1⟩]) = units "abcbcdef" ∧
      spelled (highlight (units "abcdef") [⟨3, 1⟩]) ≠ units "abcdef" := by
  decide

end CollabIDE.Search.Highlight
