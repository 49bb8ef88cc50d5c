import Mathlib.Data.List.Forall2
import Mathlib.Data.List.Infix
/-!
# Where a list stands in another

The positions at which one list occurs in another, the first of them from a
position on, and the leftmost way to find several lists one after another.  The
last is the greedy search for a subsequence, and misses none.
-/

namespace CollabIDE.Lib.Substring

variable {α : Type*} {text needle front back : List α} {i j position : Nat}

/-- `needle` stands in `text` from position `i` on. -/
def OccursAt (text needle : List α) (i : Nat) : Prop := i ≤ text.length ∧ needle <+: text.drop i

/-- `needle` stands in `text` at position `i` and at none before. -/
def FirstAt (text needle : List α) (i : Nat) : Prop :=
  OccursAt text needle i ∧ ∀ j < i, ¬ OccursAt text needle j

/-- `needle` stands in `text` at position `i`, and from `position` on at none before. -/
def FirstFrom (text needle : List α) (position i : Nat) : Prop :=
  OccursAt text needle i ∧ position ≤ i ∧ ∀ j, position ≤ j → j < i → ¬ OccursAt text needle j

/-- The positions go up from the cursor, and every needle stands at its own. -/
structure Series (text : List α) (needles : List (List α)) (cursor : Nat)
    (positions : List Nat) : Prop where
  sorted : positions.Pairwise (· < ·)
  after : ∀ p ∈ positions, cursor ≤ p
  stands : List.Forall₂ (OccursAt text) needles positions

theorem occursAt_iff :
    OccursAt text needle i ↔ ∃ front back, text = front ++ needle ++ back ∧ front.length = i := by
  constructor
  · rintro ⟨hi, back, hback⟩
    refine ⟨text.take i, back, ?_, List.length_take_of_le hi⟩
    rw [List.append_assoc, hback, List.take_append_drop]
  · rintro ⟨front, back, rfl, rfl⟩
    refine ⟨by simp, back, ?_⟩
    rw [List.append_assoc, List.drop_left]

theorem isInfix_iff : needle <:+: text ↔ ∃ i, OccursAt text needle i := by
  simp only [occursAt_iff]
  constructor
  · rintro ⟨front, back, rfl⟩
    exact ⟨front.length, front, back, rfl, rfl⟩
  · rintro ⟨-, front, back, rfl, -⟩
    exact ⟨front, back, rfl⟩

theorem FirstAt.isInfix (h : FirstAt text needle i) : needle <:+: text := isInfix_iff.mpr ⟨i, h.1⟩

theorem OccursAt.add_length_le (h : OccursAt text needle i) :
    i + needle.length ≤ text.length := by
  obtain ⟨front, back, rfl, rfl⟩ := occursAt_iff.mp h
  simp

theorem OccursAt.lt_length (h : OccursAt text needle i) (hne : needle ≠ []) :
    i < text.length := by
  have hle := h.add_length_le
  have hpos := List.length_pos_iff.mpr hne
  omega

theorem occursAt_append_right :
    OccursAt (front ++ text) needle (front.length + i) ↔ OccursAt text needle i := by
  rw [OccursAt, ← List.drop_drop, List.drop_left, List.length_append,
    Nat.add_le_add_iff_left, OccursAt]

theorem OccursAt.append (h : OccursAt text needle i) (back : List α) :
    OccursAt (text ++ back) needle i := by
  obtain ⟨front, rest, rfl, rfl⟩ := occursAt_iff.mp h
  exact occursAt_iff.mpr ⟨front, rest ++ back, by simp, rfl⟩

theorem OccursAt.take_drop (h : OccursAt text needle i) :
    (text.drop i).take needle.length = needle :=
  (List.prefix_iff_eq_take.mp h.2).symm

/-- A needle without the separator stands on one side of it. -/
theorem occursAt_append_cons {sep : α} (hsep : sep ∉ needle) :
    OccursAt (front ++ sep :: back) needle i ↔
      OccursAt front needle i ∨ ∃ j, i = front.length + 1 + j ∧ OccursAt back needle j := by
  have hright (j : Nat) : OccursAt (front ++ sep :: back) needle (front.length + 1 + j) ↔
      OccursAt back needle j := by
    have h : OccursAt ((front ++ [sep]) ++ back) needle ((front ++ [sep]).length + j) ↔
        OccursAt back needle j := occursAt_append_right
    rwa [List.length_append, List.append_assoc, List.singleton_append] at h
  constructor
  · intro h
    by_cases hi : i ≤ front.length
    · refine .inl ⟨hi, ?_⟩
      have hstands := h.2
      rw [List.drop_append_of_le_length hi] at hstands
      by_cases hlength : needle.length ≤ (front.drop i).length
      · exact List.prefix_of_prefix_length_le hstands (List.prefix_append _ _) hlength
      · have hmem : front.drop i ++ [sep] <+: needle := by
          have hfront : front.drop i ++ [sep] <+: front.drop i ++ sep :: back := ⟨back, by simp⟩
          refine List.prefix_of_prefix_length_le hfront hstands ?_
          rw [List.length_append, List.length_singleton]
          omega
        exact absurd (hmem.subset (by simp)) hsep
    · obtain ⟨j, rfl⟩ := Nat.exists_eq_add_of_le (show front.length + 1 ≤ i by omega)
      exact .inr ⟨j, rfl, (hright j).mp h⟩
  · rintro (h | ⟨j, rfl, h⟩)
    · exact h.append _
    · exact (hright j).mpr h

theorem FirstAt.append_cons {sep : α} (hsep : sep ∉ needle) (h : FirstAt front needle i)
    (back : List α) : FirstAt (front ++ sep :: back) needle i := by
  refine ⟨h.1.append _, fun j hj hat => ?_⟩
  have hle := h.1.1
  rcases (occursAt_append_cons hsep).mp hat with hat | ⟨k, rfl, -⟩
  · exact h.2 j hj hat
  · omega

/-! ## The first occurrence -/

section IndexOf

variable [DecidableEq α]

/-- The first position from `position` on at which `needle` stands; `position` is cut off at the
end of `text`. -/
def indexOf (text needle : List α) (position : Nat) : Option Nat :=
  let start := min position text.length
  (List.range' start (text.length + 1 - start)).find? fun i => needle.isPrefixOf (text.drop i)

/-- The last position at which `needle` stands. -/
def lastIndexOf (text needle : List α) : Option Nat :=
  (List.range (text.length + 1)).reverse.find? fun i => needle.isPrefixOf (text.drop i)

theorem indexOf_eq_some (hne : needle ≠ []) :
    indexOf text needle position = some i ↔ FirstFrom text needle position i := by
  simp only [FirstFrom, indexOf, List.find?_range'_eq_some, List.isPrefixOf_iff_prefix,
    List.mem_range'_1, Bool.not_eq_true', Bool.eq_false_iff, ne_eq]
  constructor
  · rintro ⟨hstands, ⟨hstart, hend⟩, hfirst⟩
    have hocc : OccursAt text needle i := ⟨by omega, hstands⟩
    have hlt := hocc.lt_length hne
    exact ⟨hocc, by omega, fun j hj hji hat => hfirst j (by omega) hji hat.2⟩
  · rintro ⟨hocc, hposition, hfirst⟩
    have hlt := hocc.lt_length hne
    refine ⟨hocc.2, ⟨by omega, by omega⟩, fun j hj hji hstands => ?_⟩
    exact hfirst j (by omega) hji ⟨by omega, hstands⟩

theorem indexOf_eq_none (hne : needle ≠ []) :
    indexOf text needle position = none ↔ ∀ i, position ≤ i → ¬ OccursAt text needle i := by
  simp only [indexOf, List.find?_eq_none, List.mem_range'_1, List.isPrefixOf_iff_prefix]
  constructor
  · intro h i hi hocc
    have hlt := hocc.lt_length hne
    exact h i ⟨by omega, by omega⟩ hocc.2
  · rintro h i ⟨hstart, hend⟩ hstands
    have hocc : OccursAt text needle i := ⟨by omega, hstands⟩
    have hlt := hocc.lt_length hne
    exact h i (by omega) hocc

theorem firstAt_iff (hne : needle ≠ []) :
    FirstAt text needle i ↔ indexOf text needle 0 = some i := by
  rw [indexOf_eq_some hne]
  exact ⟨fun h => ⟨h.1, Nat.zero_le i, fun j _ => h.2 j⟩,
    fun h => ⟨h.1, fun j => h.2.2 j (Nat.zero_le j)⟩⟩

theorem exists_indexOf (hne : needle ≠ []) (h : OccursAt text needle i) (hi : position ≤ i) :
    ∃ j, indexOf text needle position = some j ∧ j ≤ i := by
  cases hfound : indexOf text needle position with
  | none => exact absurd h ((indexOf_eq_none hne).mp hfound i hi)
  | some j =>
      refine ⟨j, rfl, ?_⟩
      by_contra hlt
      exact ((indexOf_eq_some hne).mp hfound).2.2 i hi (by omega) h

theorem indexOf_isSome (hne : needle ≠ []) :
    (indexOf text needle 0).isSome ↔ needle <:+: text := by
  rw [isInfix_iff]
  constructor
  · intro h
    obtain ⟨i, hi⟩ := Option.isSome_iff_exists.mp h
    exact ⟨i, ((indexOf_eq_some hne).mp hi).1⟩
  · rintro ⟨i, hi⟩
    obtain ⟨j, hj, -⟩ := exists_indexOf hne hi (Nat.zero_le i)
    rw [hj]
    rfl

theorem exists_firstAt (hne : needle ≠ []) (h : needle <:+: text) : ∃ i, FirstAt text needle i := by
  obtain ⟨i, hi⟩ := Option.isSome_iff_exists.mp ((indexOf_isSome hne).mpr h)
  exact ⟨i, (firstAt_iff hne).mpr hi⟩

theorem occursAt_of_lastIndexOf (h : lastIndexOf text needle = some i) :
    OccursAt text needle i := by
  rw [lastIndexOf] at h
  have hmem := List.mem_of_find?_eq_some h
  rw [List.mem_reverse, List.mem_range] at hmem
  have hstands : needle.isPrefixOf (text.drop i) = true := by simpa using List.find?_some h
  exact ⟨by omega, List.isPrefixOf_iff_prefix.mp hstands⟩

end IndexOf

/-! ## Several lists one after another -/

section Leftmost

variable [DecidableEq α] {needles : List (List α)} {positions : List Nat}

/-- The first position of each list behind the start of the one before it. -/
def leftmost (text : List α) : List (List α) → Nat → Option (List Nat)
  | [], _ => some []
  | needle :: needles, cursor =>
    (indexOf text needle cursor).bind fun found =>
      (leftmost text needles (found + 1)).map fun positions => found :: positions

theorem leftmost_cons_eq_some {cursor : Nat} :
    leftmost text (needle :: needles) cursor = some positions ↔
      ∃ found rest, indexOf text needle cursor = some found ∧
        leftmost text needles (found + 1) = some rest ∧ positions = found :: rest := by
  simp only [leftmost, Option.bind_eq_some_iff, Option.map_eq_some_iff]
  constructor
  · rintro ⟨found, hfound, rest, hrest, rfl⟩
    exact ⟨found, rest, hfound, hrest, rfl⟩
  · rintro ⟨found, rest, hfound, hrest, rfl⟩
    exact ⟨found, hfound, rest, hrest, rfl⟩

theorem leftmost_sound (hne : ∀ needle ∈ needles, needle ≠ []) {cursor : Nat}
    (h : leftmost text needles cursor = some positions) :
    Series text needles cursor positions := by
  induction needles generalizing cursor positions with
  | nil =>
      cases h
      exact ⟨.nil, by simp, .nil⟩
  | cons needle needles ih =>
      obtain ⟨hfirst, hothers⟩ := List.forall_mem_cons.mp hne
      obtain ⟨found, rest, hfound, hrest, rfl⟩ := leftmost_cons_eq_some.mp h
      obtain ⟨hocc, hcursor, -⟩ := (indexOf_eq_some hfirst).mp hfound
      obtain ⟨hsorted, hafter, hall⟩ := ih hothers hrest
      refine ⟨List.pairwise_cons.mpr ⟨hafter, hsorted⟩, ?_, .cons hocc hall⟩
      rintro p (_ | ⟨_, hp⟩)
      · exact hcursor
      · exact Nat.le_trans hcursor (Nat.le_of_succ_le (hafter p hp))

/-- The leftmost positions are there and nowhere behind any others. -/
theorem leftmost_least (hne : ∀ needle ∈ needles, needle ≠ []) {cursor : Nat}
    {others : List Nat} (h : Series text needles cursor others) :
    ∃ positions, leftmost text needles cursor = some positions ∧
      List.Forall₂ (· ≤ ·) positions others := by
  induction needles generalizing cursor others with
  | nil =>
      cases h.stands
      exact ⟨[], rfl, .nil⟩
  | cons needle needles ih =>
      obtain ⟨hfirst, hothers⟩ := List.forall_mem_cons.mp hne
      obtain ⟨p, ps, hat, hstands, rfl⟩ := List.forall₂_cons_left_iff.mp h.stands
      obtain ⟨hbehind, hsorted⟩ := List.pairwise_cons.mp h.sorted
      obtain ⟨found, hfound, hle⟩ := exists_indexOf hfirst hat (h.after p List.mem_cons_self)
      have hseries : Series text needles (found + 1) ps :=
        ⟨hsorted, fun q hq => Nat.succ_le_of_lt (Nat.lt_of_le_of_lt hle (hbehind q hq)), hstands⟩
      obtain ⟨rest, hrest, hall⟩ := ih hothers hseries
      exact ⟨found :: rest, leftmost_cons_eq_some.mpr ⟨found, rest, hfound, hrest, rfl⟩,
        .cons hle hall⟩

theorem indexOf_singleton_eq_some {a : α} {cursor : Nat} :
    indexOf text [a] cursor = some i ↔
      ∃ front back, text.drop cursor = front ++ a :: back ∧ a ∉ front ∧
        i = cursor + front.length := by
  rw [indexOf_eq_some (List.cons_ne_nil a [])]
  constructor
  · rintro ⟨hocc, hcursor, hfirst⟩
    obtain ⟨front, back, rfl, rfl⟩ := occursAt_iff.mp hocc
    refine ⟨front.drop cursor, back, ?_, fun hmem => ?_, ?_⟩
    · rw [List.append_assoc, List.drop_append_of_le_length hcursor]
      rfl
    · obtain ⟨k, hk, rfl⟩ := List.getElem_of_mem hmem
      rw [List.length_drop] at hk
      refine hfirst (cursor + k) (by omega) (by omega) ⟨by simp; omega, ?_⟩
      rw [List.getElem_drop, List.append_assoc, List.drop_append_of_le_length (by omega)]
      refine ⟨front.drop (cursor + k + 1) ++ ([front[cursor + k]] ++ back), ?_⟩
      rw [← List.append_assoc, List.singleton_append, List.getElem_cons_drop]
    · rw [List.length_drop]
      omega
  · rintro ⟨front, back, hdrop, hnot, rfl⟩
    have hle : cursor ≤ text.length := by
      by_contra hlt
      rw [List.drop_eq_nil_of_le (by omega)] at hdrop
      exact absurd hdrop (by simp)
    have hlength := congrArg List.length hdrop
    rw [List.length_drop, List.length_append, List.length_cons] at hlength
    refine ⟨⟨by omega, ?_⟩, by omega, fun j hj hji hat => ?_⟩
    · rw [← List.drop_drop, hdrop, List.drop_left]
      exact ⟨back, rfl⟩
    · obtain ⟨k, rfl⟩ := Nat.exists_eq_add_of_le hj
      have hstands := hat.2
      rw [← List.drop_drop, hdrop, List.drop_append_of_le_length (by omega)] at hstands
      obtain ⟨rest, hrest⟩ := hstands
      refine hnot (List.mem_of_mem_drop (i := k) ?_)
      cases hfront : front.drop k with
      | nil =>
          have hzero := congrArg List.length hfront
          rw [List.length_drop, List.length_nil] at hzero
          omega
      | cons b rest' =>
          rw [hfront] at hrest
          rw [(List.cons.inj hrest).1]
          exact List.mem_cons_self

/-- The greedy search for single elements misses no subsequence. -/
theorem leftmost_isSome_iff_sublist {cursor : Nat} :
    (leftmost text (needle.map fun a => [a]) cursor).isSome ↔
      needle.Sublist (text.drop cursor) := by
  induction needle generalizing cursor with
  | nil => simp [leftmost]
  | cons a needle ih =>
      rw [List.map_cons, leftmost]
      cases hfound : indexOf text [a] cursor with
      | none =>
          refine iff_of_false (by simp) fun hsub => ?_
          have hmem : a ∈ text.drop cursor := hsub.subset List.mem_cons_self
          obtain ⟨front, back, hdrop, hnot⟩ := List.eq_append_cons_of_mem hmem
          have hsome := indexOf_singleton_eq_some.mpr ⟨front, back, hdrop, hnot, rfl⟩
          rw [hfound] at hsome
          cases hsome
      | some found =>
          obtain ⟨front, back, hdrop, hnot, rfl⟩ := indexOf_singleton_eq_some.mp hfound
          have hback : text.drop (cursor + front.length + 1) = back := by
            rw [Nat.add_assoc, ← List.drop_drop, hdrop, ← List.drop_drop, List.drop_left]
            rfl
          have hskip : (a :: needle).Sublist (text.drop cursor) ↔ needle.Sublist back := by
            rw [hdrop]
            clear hfound hdrop hback ih
            induction front with
            | nil => exact List.cons_sublist_cons
            | cons b front ih' =>
                obtain ⟨hab, hrest⟩ := not_or.mp (List.mem_cons.not.mp hnot)
                rw [List.cons_append, List.sublist_cons_iff, ih' hrest]
                refine or_iff_left ?_
                rintro ⟨r, heq, -⟩
                exact hab (List.cons.inj heq).1
          rw [hskip, ← hback, ← ih]
          rw [Option.bind_some, Option.isSome_map]

end Leftmost

end CollabIDE.Lib.Substring
