import CollabIDE.Search.Match
/-!
# What a path match highlights

Where every character is one unit in either case, a position of the lowercased
path is one of the path.  The ranges of a match are the positions the search
found, run together where they touch, and the lowercased path reads the
lowercased query there.
-/

namespace CollabIDE.Search.PathMatch

open CollabIDE.Lib.Substring CollabIDE.Search.Match CollabIDE.Search.Strings

/-! ## Positions and ranges -/

section Ranges

variable {α : Type} {text : List α} {ranges : List Range} {found n : Nat}

/-- The ranges are not empty, go up without touching and end by `n`. -/
structure Exact (n : Nat) (ranges : List Range) : Prop where
  within : ∀ r ∈ ranges, 0 ≤ r.start ∧ r.start < r.stop ∧ r.stop ≤ n
  apart : ranges.Pairwise fun r r' => r.stop < r'.start

def cells (r : Range) : List Nat := List.range' r.start.toNat (r.stop - r.start).toNat

/-- The positions in the ranges. -/
def positions (ranges : List Range) : List Nat := ranges.flatMap cells

/-- The text at some positions. -/
def pick (text : List α) (ps : List Nat) : List α := ps.filterMap fun p => text[p]?

/-- The slices of the text at the ranges, one after another. -/
def covered (text : List α) (ranges : List Range) : List α :=
  ranges.flatMap fun r => slice text r.start r.stop

theorem pick_range' (text : List α) {start length : Nat} (h : start + length ≤ text.length) :
    pick text (List.range' start length) = (text.drop start).take length := by
  induction length generalizing start with
  | zero => simp [pick]
  | succ length ih =>
      have hlt : start < text.length := by omega
      rw [List.range'_succ, pick, List.filterMap_cons, List.getElem?_eq_getElem hlt,
        List.drop_eq_getElem_cons hlt, List.take_succ_cons, ← ih (by omega)]
      rfl

theorem covered_eq (h : Exact text.length ranges) :
    covered text ranges = pick text (positions ranges) := by
  rw [pick, positions, List.filterMap_flatMap, covered]
  refine List.flatMap_congr fun r hr => ?_
  obtain ⟨hstart, hlt, hstop⟩ := h.within r hr
  obtain ⟨start, hs⟩ := Int.eq_ofNat_of_zero_le hstart
  obtain ⟨stop, ht⟩ := Int.eq_ofNat_of_zero_le (Int.le_of_lt (Int.lt_of_le_of_lt hstart hlt))
  have hlength : (r.stop - r.start).toNat = stop - start := by omega
  have hpick : pick text (List.range' start (stop - start)) =
      (text.drop start).take (stop - start) := pick_range' text (by omega)
  rw [cells, hlength, hs, ht, slice_natCast text (by omega) (by omega), List.drop_take, ← hpick]
  rfl

theorem exact_extend (h : Exact n ranges) (hn : n ≤ found) :
    Exact (found + 1) (extend ranges found) ∧
      positions (extend ranges found) = positions ranges ++ [found] := by
  rcases List.eq_nil_or_concat ranges with rfl | ⟨front, last, rfl⟩
  · have heq : extend [] found = [⟨found, found + 1⟩] := rfl
    rw [heq]
    refine ⟨⟨fun r hr => ?_, List.pairwise_singleton _ _⟩, by simp [positions, cells]⟩
    obtain rfl := List.mem_singleton.mp hr
    exact ⟨Int.natCast_nonneg found, Int.lt_succ _, Int.le_refl _⟩
  rw [List.concat_eq_append] at h ⊢
  obtain ⟨hstart, hlt, hstop⟩ := h.within last (by simp)
  have hfront : ∀ r ∈ front, 0 ≤ r.start ∧ r.start < r.stop ∧ r.stop ≤ n := fun r hr =>
    h.within r (List.mem_append_left _ hr)
  have hapart := List.pairwise_append.mp h.apart
  by_cases htouch : last.stop = found
  · have heq : extend (front ++ [last]) found = front ++ [{ last with stop := found + 1 }] := by
      simp [extend, htouch]
    rw [heq]
    refine ⟨⟨fun r hr => ?_, List.pairwise_append.mpr ⟨hapart.1, List.pairwise_singleton _ _, ?_⟩⟩,
      ?_⟩
    · rcases List.mem_append.mp hr with hr | hr
      · obtain ⟨hr₁, hr₂, hr₃⟩ := hfront r hr
        exact ⟨hr₁, hr₂, by omega⟩
      · obtain rfl := List.mem_singleton.mp hr
        exact ⟨hstart, by simp; omega, by simp⟩
    · intro r hr r' hr'
      obtain rfl := List.mem_singleton.mp hr'
      exact hapart.2.2 r hr last (List.mem_singleton_self last)
    · have hcells : cells { last with stop := (found : Int) + 1 } = cells last ++ [found] := by
        have hlength : ((found : Int) + 1 - last.start).toNat =
            (last.stop - last.start).toNat + 1 := by omega
        have hend : last.start.toNat + (last.stop - last.start).toNat = found := by omega
        rw [cells, hlength, List.range'_concat, Nat.one_mul, hend, cells]
      simp [positions, hcells]
  · have heq : extend (front ++ [last]) found = (front ++ [last]) ++ [⟨found, found + 1⟩] := by
      simp [extend, htouch]
    rw [heq]
    refine ⟨⟨fun r hr => ?_, List.pairwise_append.mpr ⟨h.apart, List.pairwise_singleton _ _, ?_⟩⟩,
      ?_⟩
    · rcases List.mem_append.mp hr with hr | hr
      · obtain ⟨hr₁, hr₂, hr₃⟩ := h.within r hr
        exact ⟨hr₁, hr₂, by omega⟩
      · obtain rfl := List.mem_singleton.mp hr
        exact ⟨Int.natCast_nonneg found, Int.lt_succ _, Int.le_refl _⟩
    · intro r hr r' hr'
      obtain rfl := List.mem_singleton.mp hr'
      change r.stop < (found : Int)
      rcases List.mem_append.mp hr with hr | hr
      · have hbefore := hapart.2.2 r hr last (List.mem_singleton_self last)
        omega
      · obtain rfl := List.mem_singleton.mp hr
        omega
    · simp [positions, cells]

theorem exact_foldl_extend {ps : List Nat} (h : Exact n ranges) (hsorted : ps.Pairwise (· < ·))
    (hn : ∀ p ∈ ps, n ≤ p) {length : Nat} (hlength : ∀ p ∈ ps, p < length) (hle : n ≤ length) :
    Exact length (ps.foldl extend ranges) ∧
      positions (ps.foldl extend ranges) = positions ranges ++ ps := by
  induction ps generalizing ranges n with
  | nil =>
      refine ⟨⟨fun r hr => ?_, h.apart⟩, (List.append_nil _).symm⟩
      obtain ⟨hr₁, hr₂, hr₃⟩ := h.within r hr
      exact ⟨hr₁, hr₂, by omega⟩
  | cons p ps ih =>
      obtain ⟨hp, hps⟩ := List.pairwise_cons.mp hsorted
      obtain ⟨hexact, hpositions⟩ := exact_extend h (hn p List.mem_cons_self)
      obtain ⟨hrest, hall⟩ := ih hexact hps (fun q hq => hp q hq)
        (fun q hq => hlength q (List.mem_cons_of_mem _ hq)) (hlength p List.mem_cons_self)
      refine ⟨hrest, ?_⟩
      rw [List.foldl_cons, hall, hpositions, List.append_assoc]
      rfl

theorem pick_eq_of_occursAt {needle : List α} {ps : List Nat}
    (h : List.Forall₂ (OccursAt text) (needle.map fun a => [a]) ps) : pick text ps = needle := by
  induction needle generalizing ps with
  | nil =>
      cases h
      rfl
  | cons a needle ih =>
      obtain ⟨p, ps, hat, hrest, rfl⟩ := List.forall₂_cons_left_iff.mp h
      obtain ⟨front, back, rfl, rfl⟩ := occursAt_iff.mp hat
      rw [pick, List.filterMap_cons]
      simp only [List.append_assoc, List.getElem?_append_right (Nat.le_refl _), Nat.sub_self,
        List.singleton_append, List.getElem?_cons_zero]
      rw [← ih hrest, pick, List.append_assoc, List.singleton_append]

end Ranges

/-! ## The loop over the characters -/

/-- What one found position does to the variables of the loop. -/
def note (s : Scan) (found : Nat) : Scan :=
  ⟨extend s.ranges found, found + 1, if s.first = -1 then found else s.first⟩

/-- The loop finds the leftmost positions. -/
theorem foldlM_scanChar (haystack : Text) (cs : List Text) (s : Scan) :
    cs.foldlM (scanChar haystack) s = (leftmost haystack cs s.cursor).map (·.foldl note s) := by
  induction cs generalizing s with
  | nil => rfl
  | cons c cs ih =>
      rw [List.foldlM_cons, scanChar, leftmost]
      cases indexOf haystack c s.cursor with
      | none => rfl
      | some found =>
          simp only [Option.map_some, Option.bind_eq_bind, Option.bind_some, ih, Option.map_map]
          rfl

theorem ranges_foldl_note (ps : List Nat) (s : Scan) :
    (ps.foldl note s).ranges = ps.foldl extend s.ranges := by
  induction ps generalizing s with
  | nil => rfl
  | cons p ps ih => rw [List.foldl_cons, ih, List.foldl_cons, note]

theorem subsequenceRanges_eq (haystack needle : Text) (start : Nat) :
    subsequenceRanges haystack needle start =
      (leftmost haystack (chars needle) start).map fun ps =>
        let s := ps.foldl note ⟨[], start, -1⟩
        ⟨s.ranges, s.cursor - s.first - needle.length⟩ := by
  rw [subsequenceRanges, foldlM_scanChar, Option.map_map]
  rfl

/-! ## Characters of one unit -/

section OneUnit

variable {C : Casing} {s t cs path query : Text} {u v n : UInt16}

/-- Every character is one unit, and so is its lowercase. -/
def OneUnit (C : Casing) (s : Text) : Prop :=
  ∀ c ∈ chars s, c.length = 1 ∧ (C.lower c).length = 1

/-- Each unit is a character. -/
def Apart (s : Text) : Prop := chars s = s.map fun u => [u]

theorem map_flatten_of_length {cs : List Text} (h : ∀ c ∈ cs, c.length = 1) :
    cs.flatten.map (fun u => [u]) = cs := by
  induction cs with
  | nil => rfl
  | cons c cs ih =>
      obtain ⟨hc, hcs⟩ := List.forall_mem_cons.mp h
      obtain ⟨u, rfl⟩ := List.length_eq_one_iff.mp hc
      rw [List.flatten_cons, List.map_append, ih hcs]
      rfl

theorem OneUnit.apart (h : OneUnit C s) : Apart s := by
  rw [Apart]
  conv_rhs => rw [← chars_flatten s]
  exact (map_flatten_of_length fun c hc => (h c hc).1).symm

theorem apart_cons :
    Apart (u :: v :: s) ↔ ¬ (isHigh u = true ∧ isLow v = true) ∧ Apart (v :: s) := by
  by_cases hpair : isHigh u = true ∧ isLow v = true
  · simp [Apart, chars, hpair]
  · rw [Apart, chars, if_neg (by simpa using hpair), List.map_cons, List.cons_inj_right, Apart]
    exact (and_iff_right hpair).symm

/-- A unit and what may stand for it in the lowercased string. -/
def Lowers (C : Casing) (u n : UInt16) : Prop :=
  C.lower [u] = [n] ∨ u = capitalSigma ∧ (n = smallSigma ∨ n = finalSigma)

theorem Lowers.surrogate (h : Lowers C u n) : isSurrogate u ∨ isSurrogate n → n = u := by
  rcases h with hlower | ⟨rfl, rfl | rfl⟩
  · rintro (hu | hn)
    · have hfixed := C.lower_fixed (.inr (.inr hu))
      exact (List.singleton_inj.mp (hfixed.symm.trans hlower)).symm
    · exact (C.mem_lower_surrogate hn (hlower ▸ List.mem_singleton_self n)).symm
  · decide
  · decide

theorem Lowers.pair {m : UInt16} (h : Lowers C u n) (h' : Lowers C v m) :
    (isHigh u = true ∧ isLow v = true) ↔ (isHigh n = true ∧ isLow m = true) := by
  constructor
  · rintro ⟨hu, hv⟩
    rw [h.surrogate (.inl (by simp [isSurrogate, hu])),
      h'.surrogate (.inl (by simp [isSurrogate, hv]))]
    exact ⟨hu, hv⟩
  · rintro ⟨hn, hm⟩
    rw [← h.surrogate (.inr (by simp [isSurrogate, hn])),
      ← h'.surrogate (.inr (by simp [isSurrogate, hm]))]
    exact ⟨hn, hm⟩

theorem apart_iff_of_lowers (h : List.Forall₂ (Lowers C) s t) : Apart s ↔ Apart t := by
  induction h with
  | nil => exact Iff.rfl
  | cons hhead htail ih =>
      cases htail with
      | nil => exact iff_of_true rfl rfl
      | cons hnext _ => rw [apart_cons, apart_cons, hhead.pair hnext, ih]

theorem lowers_lowerChars (h : ∀ u ∈ s, (C.lower [u]).length = 1) (before : List Text) :
    List.Forall₂ (Lowers C) s (lowerChars C before (s.map fun u => [u])) := by
  induction s generalizing before with
  | nil => exact .nil
  | cons u s ih =>
      obtain ⟨hu, hs⟩ := List.forall_mem_cons.mp h
      obtain ⟨n, hn⟩ := List.length_eq_one_iff.mp hu
      have hat : ∃ m, lowerAt C before [u] (s.map fun u => [u]) = [m] ∧ Lowers C u m := by
        unfold lowerAt
        split_ifs with hsigma
        · exact ⟨finalSigma, rfl, .inr ⟨List.singleton_inj.mp hsigma, .inr rfl⟩⟩
        · exact ⟨smallSigma, rfl, .inr ⟨List.singleton_inj.mp hsigma, .inl rfl⟩⟩
        · exact ⟨n, hn, .inl hn⟩
      obtain ⟨m, hm, hlowers⟩ := hat
      rw [List.map_cons, lowerChars, hm]
      exact .cons hlowers (ih hs _)

/-- A string of such characters lowercases unit by unit. -/
theorem OneUnit.lowers (h : OneUnit C s) : List.Forall₂ (Lowers C) s (toLowerCase C s) := by
  rw [toLowerCase, h.apart]
  refine lowers_lowerChars (fun u hu => (h [u] ?_).2) []
  rw [h.apart]
  exact List.mem_map_of_mem hu

theorem toLowerCase_of_lowers (h : List.Forall₂ (Lowers C) s t) (hsigma : capitalSigma ∉ s)
    (ht : Apart t) : toLowerCase C s = t := by
  have hs : Apart s := (apart_iff_of_lowers h).mpr ht
  have hnot : [capitalSigma] ∉ s.map fun u => [u] := by simpa using hsigma
  rw [toLowerCase, hs, lowerChars_eq_flatMap hnot]
  clear hs hnot ht
  induction h with
  | nil => rfl
  | @cons u n s t hhead htail ih =>
      obtain ⟨hu, hs⟩ := not_or.mp (List.mem_cons.not.mp hsigma)
      have hn : C.lower [u] = [n] := hhead.resolve_right fun h => hu h.1.symm
      rw [List.map_cons, List.flatMap_cons, hn, ih hs]
      rfl

theorem lowers_pick (h : List.Forall₂ (Lowers C) s t) (ps : List Nat) :
    List.Forall₂ (Lowers C) (pick s ps) (pick t ps) := by
  have hlength := h.length_eq
  induction ps with
  | nil => exact .nil
  | cons p ps ih =>
      rw [pick, pick, List.filterMap_cons, List.filterMap_cons]
      by_cases hp : p < s.length
      · rw [List.getElem?_eq_getElem hp, List.getElem?_eq_getElem (hlength ▸ hp)]
        exact .cons (h.get hp (hlength ▸ hp)) ih
      · rw [List.getElem?_eq_none (by omega), List.getElem?_eq_none (by omega)]
        exact ih

end OneUnit

/-! ## The match -/

section Whole

variable {C : Casing} {path query : Text} {m : NameMatch} {direct : Nat}

theorem matchPath_of_some (hne : query ≠ [])
    (h : indexOf (toLowerCase C path) (toLowerCase C query) 0 = some direct) :
    matchPath C path query =
      some ⟨(if nameStart path ≤ direct then (if direct = nameStart path then 0 else 100)
          else 300) + direct,
        [⟨direct, direct + (toLowerCase C query).length⟩]⟩ := by
  rw [matchPath, if_neg (by simpa using hne)]
  simp only [h]

theorem matchPath_of_none (hne : query ≠ [])
    (h : indexOf (toLowerCase C path) (toLowerCase C query) 0 = none) :
    matchPath C path query =
      ((subsequenceRanges (toLowerCase C path) (toLowerCase C query) (nameStart path)).map
        fun inName => ⟨1000 + inName.spread, inName.ranges⟩).or
      ((subsequenceRanges (toLowerCase C path) (toLowerCase C query) 0).map
        fun anywhere => ⟨2000 + anywhere.spread, anywhere.ranges⟩) := by
  rw [matchPath, if_neg (by simpa using hne)]
  simp only [h]
  cases subsequenceRanges (toLowerCase C path) (toLowerCase C query) (nameStart path) <;> rfl

/-- Ranges at which a text reads a needle. -/
structure Reads (text needle : Text) (ranges : List Range) : Prop where
  exactly : Exact text.length ranges
  picked : pick text (positions ranges) = needle

theorem reads_direct {text needle : Text} {i : Nat} (hne : needle ≠ [])
    (h : OccursAt text needle i) : Reads text needle [⟨i, i + needle.length⟩] := by
  have hle := h.add_length_le
  have hpos := List.length_pos_iff.mpr hne
  refine ⟨⟨fun r hr => ?_, List.pairwise_singleton _ _⟩, ?_⟩
  · obtain rfl := List.mem_singleton.mp hr
    exact ⟨Int.natCast_nonneg i, by change (i : Int) < i + needle.length; omega, by
      change (i : Int) + needle.length ≤ text.length; omega⟩
  · have hcells : positions [⟨i, i + needle.length⟩] = List.range' i needle.length := by
      have hlength : ((i : Int) + needle.length - i).toNat = needle.length := by omega
      rw [positions, List.flatMap_singleton, cells, hlength, Int.toNat_natCast]
    rw [hcells, pick_range' text hle, h.take_drop]

theorem reads_subsequence {text needle : Text} {start : Nat} {s : Subsequence}
    (hneedle : Apart needle) (h : subsequenceRanges text needle start = some s) :
    Reads text needle s.ranges := by
  rw [subsequenceRanges_eq, hneedle] at h
  obtain ⟨ps, hps, rfl⟩ := Option.map_eq_some_iff.mp h
  have hsingle : ∀ c ∈ needle.map fun u => [u], c ≠ [] := by simp
  obtain ⟨hsorted, -, hall⟩ := leftmost_sound hsingle hps
  have hlength : ∀ p ∈ ps, p < text.length := fun p hp => by
    obtain ⟨k, hk, rfl⟩ := List.getElem_of_mem hp
    have hk' := hall.length_eq ▸ hk
    exact (hall.get hk' hk).lt_length (hsingle _ (List.get_mem _ ⟨k, hk'⟩))
  have hnone : Exact 0 [] := ⟨by simp, .nil⟩
  obtain ⟨hexact, hpositions⟩ := exact_foldl_extend hnone hsorted (fun p _ => Nat.zero_le p)
    hlength (Nat.zero_le _)
  rw [← ranges_foldl_note ps ⟨[], start, -1⟩] at hexact hpositions
  refine ⟨hexact, ?_⟩
  change pick text (positions (ps.foldl note ⟨[], start, -1⟩).ranges) = needle
  rw [hpositions]
  exact pick_eq_of_occursAt hall

theorem subsequenceRanges_isSome {text needle : Text} {start : Nat} (hneedle : Apart needle) :
    (subsequenceRanges text needle start).isSome ↔ needle.Sublist (text.drop start) := by
  rw [subsequenceRanges_eq, hneedle, Option.isSome_map, leftmost_isSome_iff_sublist]

/-- A match reads the lowercased query in the lowercased path. -/
theorem reads_of_matchPath (hne : query ≠ []) (hneedle : Apart (toLowerCase C query))
    (h : matchPath C path query = some m) :
    Reads (toLowerCase C path) (toLowerCase C query) m.ranges := by
  cases hdirect : indexOf (toLowerCase C path) (toLowerCase C query) 0 with
  | some direct =>
      rw [matchPath_of_some hne hdirect] at h
      obtain rfl := Option.some.inj h
      have hne' := toLowerCase_ne_nil (C := C) hne
      exact reads_direct hne' ((indexOf_eq_some hne').mp hdirect).1
  | none =>
      rw [matchPath_of_none hne hdirect, Option.or_eq_some_iff] at h
      rcases h with h | ⟨-, h⟩
      · obtain ⟨inName, hin, rfl⟩ := Option.map_eq_some_iff.mp h
        exact reads_subsequence hneedle hin
      · obtain ⟨anywhere, hany, rfl⟩ := Option.map_eq_some_iff.mp h
        exact reads_subsequence hneedle hany

/-- The search misses no subsequence. -/
theorem matchPath_isSome (hne : query ≠ []) (hneedle : Apart (toLowerCase C query)) :
    (matchPath C path query).isSome ↔ (toLowerCase C query).Sublist (toLowerCase C path) := by
  cases hdirect : indexOf (toLowerCase C path) (toLowerCase C query) 0 with
  | some direct =>
      rw [matchPath_of_some hne hdirect]
      refine iff_of_true rfl ?_
      have hinfix := (indexOf_isSome (toLowerCase_ne_nil (C := C) hne)).mp (by rw [hdirect]; rfl)
      exact hinfix.sublist
  | none =>
      rw [matchPath_of_none hne hdirect, Option.isSome_or, Bool.or_eq_true, Option.isSome_map,
        Option.isSome_map, subsequenceRanges_isSome hneedle, subsequenceRanges_isSome hneedle,
        List.drop_zero]
      exact or_iff_right_of_imp fun h => h.trans (List.drop_sublist _ _)

/-- What a match over characters of one unit highlights.  The lowercase of a capital sigma depends
on what stands next to it, so that the characters of the path read the query if there is none
among them. -/
theorem matchPath_complete_and_exact (hpath : OneUnit C path) (hquery : OneUnit C query)
    (hne : query ≠ []) :
    (matchPath C path query = none ↔
      ¬ (toLowerCase C query).Sublist (toLowerCase C path)) ∧
    (∀ m, matchPath C path query = some m →
      m.ranges ≠ [] ∧ Exact path.length m.ranges ∧
      covered (toLowerCase C path) m.ranges = toLowerCase C query ∧
      (capitalSigma ∉ covered path m.ranges →
        toLowerCase C (covered path m.ranges) = toLowerCase C query)) ∧
    ∀ i, FirstAt (toLowerCase C path) (toLowerCase C query) i →
      ∃ score, matchPath C path query = some ⟨score, [⟨i, i + query.length⟩]⟩ := by
  have hne' := toLowerCase_ne_nil (C := C) hne
  have hneedle : Apart (toLowerCase C query) := (apart_iff_of_lowers hquery.lowers).mp hquery.apart
  refine ⟨?_, fun m hm => ?_, fun i hfirst => ?_⟩
  · rw [← Option.not_isSome_iff_eq_none, matchPath_isSome hne hneedle]
  · obtain ⟨hexact, hpicked⟩ := reads_of_matchPath hne hneedle hm
    have hlength := hpath.lowers.length_eq
    have hexact' : Exact path.length m.ranges := hlength ▸ hexact
    refine ⟨fun hnil => ?_, hexact', (covered_eq hexact).trans hpicked, fun hsigma => ?_⟩
    · rw [hnil] at hpicked
      exact hne' hpicked.symm
    · rw [covered_eq hexact'] at hsigma ⊢
      have hlowers := lowers_pick hpath.lowers (positions m.ranges)
      rw [hpicked] at hlowers
      exact toLowerCase_of_lowers hlowers hsigma hneedle
  · rw [matchPath_of_some hne ((firstAt_iff hne').mp hfirst), hquery.lowers.length_eq]
    exact ⟨_, rfl⟩

/-- A subsequence in the name, run together to two ranges. -/
theorem matchPath_complete_and_exact_main :
    ∃ m, matchPath latinGreek (units "src/Main.ts") (units "mAts") = some m ∧
      m.ranges = [⟨4, 6⟩, ⟨9, 11⟩] ∧
      toLowerCase latinGreek (covered (units "src/Main.ts") m.ranges) = units "mats" := by
  have hpath : OneUnit latinGreek (units "src/Main.ts") := by unfold OneUnit; decide
  have hquery : OneUnit latinGreek (units "mAts") := by unfold OneUnit; decide
  obtain ⟨m, hm⟩ : ∃ m, matchPath latinGreek (units "src/Main.ts") (units "mAts") = some m :=
    Option.isSome_iff_exists.mp (by decide)
  have hranges : m.ranges = [⟨4, 6⟩, ⟨9, 11⟩] := by
    have heq : matchPath latinGreek (units "src/Main.ts") (units "mAts") =
        some ⟨1003, [⟨4, 6⟩, ⟨9, 11⟩]⟩ := by decide
    rw [hm] at heq
    exact congrArg NameMatch.ranges (Option.some.inj heq)
  refine ⟨m, hm, hranges, ?_⟩
  refine ((matchPath_complete_and_exact hpath hquery (by decide)).2.1 m hm).2.2.2 ?_
  rw [hranges]
  decide

/-- A sigma at the end of what is covered becomes a final one, but not in the middle of the path. -/
theorem covered_sigma_is_final :
    matchPath latinGreek (units "ΑΣΒ") (units "ασ") = some ⟨0, [⟨0, 2⟩]⟩ ∧
      OneUnit latinGreek (units "ΑΣΒ") ∧ OneUnit latinGreek (units "ασ") ∧
      toLowerCase latinGreek (covered (units "ΑΣΒ") [⟨0, 2⟩]) ≠
        toLowerCase latinGreek (units "ασ") := by
  unfold OneUnit
  decide

end Whole

end CollabIDE.Search.PathMatch
