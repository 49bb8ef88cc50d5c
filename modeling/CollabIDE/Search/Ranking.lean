import CollabIDE.Search.PathMatch
/-!
# Which of two path matches ranks better

A contiguous match is worth its position and what the place of the position
costs, a subsequence what its tier costs and how far apart it is.  The position
counts from the start of the path: a long way to the name outweighs what
separates the places, and what separates the tiers.
-/

namespace CollabIDE.Search.Ranking

open CollabIDE.Lib.Substring CollabIDE.Search.Match CollabIDE.Search.PathMatch
open CollabIDE.Search.Strings

/-! ## Scores -/

section Scores

variable {C : Casing} {path query : Text} {m : NameMatch} {p : Nat} {ps : List Nat}

/-- What a position costs by its place: at the start of the name, later, or in the folders. -/
def place (path : Text) (p : Nat) : Int :=
  if nameStart path ≤ p then (if p = nameStart path then 0 else 100) else 300

/-- How far apart the found positions are. -/
def gap (ps : List Nat) (length : Nat) : Int := (ps.getLastD 0 : Int) + 1 - ps.headD 0 - length

/-- The leftmost positions of the characters of the query: in the name, which costs 1000, or, if it
cannot supply them, in the path, which costs 2000. -/
inductive Scattered (C : Casing) (path query : Text) : Int → List Nat → Prop
  | inName {ps : List Nat} :
      leftmost (toLowerCase C path) (chars (toLowerCase C query)) (nameStart path) = some ps →
      Scattered C path query 1000 ps
  | anywhere {ps : List Nat} :
      leftmost (toLowerCase C path) (chars (toLowerCase C query)) (nameStart path) = none →
      leftmost (toLowerCase C path) (chars (toLowerCase C query)) 0 = some ps →
      Scattered C path query 2000 ps

theorem score_direct (hne : query ≠ []) (h : matchPath C path query = some m)
    (hfirst : FirstAt (toLowerCase C path) (toLowerCase C query) p) :
    m.score = place path p + p := by
  have hindex := (firstAt_iff (toLowerCase_ne_nil hne)).mp hfirst
  rw [matchPath_of_some hne hindex] at h
  exact (congrArg NameMatch.score (Option.some.inj h)).symm

theorem foldl_note (s : Scan) (hs : s.first ≠ -1) (ps : List Nat) :
    (ps.foldl note s).first = s.first ∧
      (ps.foldl note s).cursor = if ps = [] then s.cursor else ps.getLastD 0 + 1 := by
  induction ps generalizing s with
  | nil => exact ⟨rfl, rfl⟩
  | cons p ps ih =>
      obtain ⟨hfirst, hcursor⟩ := ih (note s p) (by simp [note, hs])
      rw [List.foldl_cons, hfirst, hcursor]
      refine ⟨by simp [note, hs], ?_⟩
      cases ps <;> simp [note]

/-- The loop leaves the cursor behind the last position, and remembers the first. -/
theorem spread_eq_gap (hps : ps ≠ []) (start length : Nat) :
    let s := ps.foldl note ⟨[], start, -1⟩
    s.cursor - s.first - length = gap ps length := by
  cases ps with
  | nil => exact absurd rfl hps
  | cons p ps =>
      have hfirst : (note ⟨[], start, -1⟩ p).first = p := by simp [note]
      obtain ⟨hfirst', hcursor⟩ := foldl_note (note ⟨[], start, -1⟩ p) (by rw [hfirst]; omega) ps
      simp only [List.foldl_cons]
      rw [hfirst', hcursor, hfirst, gap]
      cases ps <;> simp [note]

theorem leftmost_ne_nil {text : Text} {start : Nat} {cs : List Text} (hcs : cs ≠ [])
    (h : leftmost text cs start = some ps) : ps ≠ [] := by
  cases cs with
  | nil => exact absurd rfl hcs
  | cons c cs =>
      obtain ⟨found, rest, -, -, rfl⟩ := leftmost_cons_eq_some.mp h
      exact List.cons_ne_nil _ _

theorem chars_ne_nil {s : Text} (hs : s ≠ []) : chars s ≠ [] := fun h => by
  have hflatten := chars_flatten s
  rw [h] at hflatten
  exact hs hflatten.symm

theorem score_scattered (hne : query ≠ []) (h : matchPath C path query = some m)
    (hnot : ¬ toLowerCase C query <:+: toLowerCase C path) :
    ∃ tier ps, Scattered C path query tier ps ∧
      m.score = tier + gap ps (toLowerCase C query).length := by
  have hne' := toLowerCase_ne_nil (C := C) hne
  have hindex : indexOf (toLowerCase C path) (toLowerCase C query) 0 = none := by
    rw [← Option.not_isSome_iff_eq_none, indexOf_isSome hne']
    exact hnot
  rw [matchPath_of_none hne hindex, Option.or_eq_some_iff] at h
  simp only [Option.map_eq_some_iff, Option.map_eq_none_iff, subsequenceRanges_eq] at h
  rcases h with ⟨_, ⟨ps, hps, rfl⟩, rfl⟩ | ⟨hnone, _, ⟨ps, hps, rfl⟩, rfl⟩
  · have hnil := leftmost_ne_nil (chars_ne_nil hne') hps
    exact ⟨1000, ps, .inName hps, congrArg (1000 + ·) (spread_eq_gap hnil _ _)⟩
  · have hnil := leftmost_ne_nil (chars_ne_nil hne') hps
    exact ⟨2000, ps, .anywhere hnone hps, congrArg (2000 + ·) (spread_eq_gap hnil _ _)⟩

theorem Scattered.unique {tier tier' : Int} {ps ps' : List Nat}
    (h : Scattered C path query tier ps) (h' : Scattered C path query tier' ps') :
    tier = tier' ∧ ps = ps' := by
  cases h with
  | inName h =>
      cases h' with
      | inName h' => exact ⟨rfl, Option.some.inj (h.symm.trans h')⟩
      | anywhere hnone _ => rw [h] at hnone; cases hnone
  | anywhere hnone h =>
      cases h' with
      | inName h' => rw [h'] at hnone; cases hnone
      | anywhere _ h' => exact ⟨rfl, Option.some.inj (h.symm.trans h')⟩

end Scores

/-! ## The ranking -/

section Order

variable {C : Casing} {query a b : Text} {p : Nat}

/-- The folders above the name, with the slash behind them. -/
def folders (path : Text) : Text := path.take (nameStart path)

def fileName (path : Text) : Text := path.drop (nameStart path)

/-- The query stands in the path, and nowhere but in the folders. -/
def OnlyInFolders (C : Casing) (path query : Text) : Prop :=
  toLowerCase C query <:+: toLowerCase C path ∧
    ∀ i, OccursAt (toLowerCase C path) (toLowerCase C query) i →
      i + (toLowerCase C query).length ≤ (toLowerCase C (folders path)).length

theorem toLowerCase_path (path : Text) :
    toLowerCase C path = toLowerCase C (folders path) ++ toLowerCase C (fileName path) := by
  rw [folders, fileName, nameStart]
  cases hlast : lastIndexOf path [slash] with
  | none => rfl
  | some i =>
      obtain ⟨front, back, hpath, rfl⟩ := occursAt_iff.mp (occursAt_of_lastIndexOf hlast)
      have hlength : front.length + 1 = (front ++ [slash]).length := by simp
      have hempty : toLowerCase C ([] : Text) = [] := rfl
      simp only [hpath, hlength, List.take_left, List.drop_left]
      rw [List.append_assoc, List.singleton_append, toLowerCase_append_cons (.inr rfl),
        toLowerCase_append_cons (.inr rfl), hempty, List.append_assoc]
      rfl

theorem isInfix_of_fileName {needle : Text} (h : needle <:+: toLowerCase C (fileName a)) :
    needle <:+: toLowerCase C a := by
  rw [toLowerCase_path a]
  exact h.trans (List.suffix_append _ _).isInfix

theorem exists_match_of_isInfix (hne : query ≠ [])
    (h : toLowerCase C query <:+: toLowerCase C a) : ∃ m, matchPath C a query = some m := by
  obtain ⟨p, hp⟩ := exists_firstAt (toLowerCase_ne_nil hne) h
  exact ⟨_, matchPath_of_some hne ((firstAt_iff (toLowerCase_ne_nil hne)).mp hp)⟩

theorem exists_match_of_scattered (hne : query ≠ []) {tier : Int} {ps : List Nat}
    (hnot : ¬ toLowerCase C query <:+: toLowerCase C b) (h : Scattered C b query tier ps) :
    ∃ m, matchPath C b query = some m := by
  have hindex : indexOf (toLowerCase C b) (toLowerCase C query) 0 = none := by
    rw [← Option.not_isSome_iff_eq_none, indexOf_isSome (toLowerCase_ne_nil hne)]
    exact hnot
  rw [← Option.isSome_iff_exists, matchPath_of_none hne hindex, Option.isSome_or,
    Option.isSome_map, Option.isSome_map, subsequenceRanges_eq, subsequenceRanges_eq,
    Option.isSome_map, Option.isSome_map, Bool.or_eq_true]
  cases h with
  | inName h => exact .inl (by rw [h]; rfl)
  | anywhere _ h => exact .inr (by rw [h]; rfl)

/-- A contiguous match ranks before a subsequence, and one in the name before one in the
folders. -/
def Ranks (C : Casing) (query a b : Text) : Prop :=
  ∀ m m', matchPath C a query = some m → matchPath C b query = some m' →
    (toLowerCase C query <:+: toLowerCase C a → ¬ toLowerCase C query <:+: toLowerCase C b →
      m.score < m'.score) ∧
    (toLowerCase C query <:+: toLowerCase C (fileName a) → OnlyInFolders C b query →
      m.score < m'.score)

/-- The query begins in the text before position `n`. -/
def Begins (text needle : Text) (n : Int) : Prop :=
  ∃ i : Nat, OccursAt text needle i ∧ (i : Int) < n

/-- The query begins in the folders above the name. -/
def InFolders (C : Casing) (path query : Text) : Prop :=
  Begins (toLowerCase C path) (toLowerCase C query) (nameStart path)

/-- The query begins 300 units before `n`, or, if it does not begin in the folders, 100 units before
it, or else at the start of the name and before it. -/
def Early (C : Casing) (path query : Text) (n : Int) : Prop :=
  Begins (toLowerCase C path) (toLowerCase C query) (n - 300) ∨
    ¬ InFolders C path query ∧
      (Begins (toLowerCase C path) (toLowerCase C query) (n - 100) ∨
        OccursAt (toLowerCase C path) (toLowerCase C query) (nameStart path) ∧ nameStart path < n)

/-- The characters of the needle stand one after another, from where the first of them stands first
on, with no more than `n` units left out between them. -/
def Fits (text needle : Text) (start : Nat) (n : Int) : Prop :=
  ∃ ps, Series text (chars needle) start ps ∧
    (∀ j, start ≤ j → OccursAt text ((chars needle).headD []) j → ps.headD 0 ≤ j) ∧
    (ps.getLastD 0 : Int) + 1 ≤ ps.headD 0 + needle.length + n

/-- The query begins early enough in `a`, for how many units its characters leave out in the name of
`b`, or in `b` if the name has not all of them, or for where it begins in `b`. -/
def Near (C : Casing) (query a b : Text) : Prop :=
  let haystack := toLowerCase C b
  let needle := toLowerCase C query
  (needle <:+: toLowerCase C a → ¬ needle <:+: haystack → ∀ n,
    (Fits haystack needle (nameStart b) n → Early C a query (1000 + n)) ∧
    ((∀ m, ¬ Fits haystack needle (nameStart b) m) → Fits haystack needle 0 n →
      Early C a query (2000 + n))) ∧
  (needle <:+: toLowerCase C (fileName a) → OnlyInFolders C b query → ∀ i,
    OccursAt haystack needle i →
      (i < nameStart b → Early C a query (300 + i)) ∧
      (¬ InFolders C b query → Early C a query (if i = nameStart b then i else 100 + i)))

theorem begins_iff {text needle : Text} (hfirst : FirstAt text needle p) (n : Int) :
    Begins text needle n ↔ (p : Int) < n := by
  constructor
  · rintro ⟨i, hi, hlt⟩
    have hle : p ≤ i := by
      by_contra hbefore
      exact hfirst.2 i (by omega) hi
    omega
  · exact fun hlt => ⟨p, hfirst.1, hlt⟩

theorem Early.mono {n m : Int} (h : Early C a query n) (hle : n ≤ m) : Early C a query m := by
  have hbegins : ∀ {text needle : Text} {k l : Int}, k ≤ l → Begins text needle k →
      Begins text needle l := fun hkl ⟨i, hi, hlt⟩ => ⟨i, hi, by omega⟩
  rcases h with h | ⟨hnot, h | ⟨hstart, hlt⟩⟩
  · exact .inl (hbegins (by omega) h)
  · exact .inr ⟨hnot, .inl (hbegins (by omega) h)⟩
  · exact .inr ⟨hnot, .inr ⟨hstart, by omega⟩⟩

theorem early_iff (hfirst : FirstAt (toLowerCase C a) (toLowerCase C query) p) (n : Int) :
    Early C a query n ↔ place a p + p < n := by
  rw [Early, InFolders, begins_iff hfirst, begins_iff hfirst, begins_iff hfirst, place]
  by_cases hname : nameStart a ≤ p
  · rw [if_pos hname]
    by_cases hstart : p = nameStart a
    · subst hstart
      rw [if_pos rfl]
      constructor
      · omega
      · exact fun hlt => .inr ⟨by omega, .inr ⟨hfirst.1, by omega⟩⟩
    · rw [if_neg hstart]
      constructor
      · rintro (hlt | ⟨-, hlt | ⟨hat, -⟩⟩)
        · omega
        · omega
        · exact absurd hat (hfirst.2 _ (by omega))
      · exact fun hlt => .inr ⟨by omega, .inl (by omega)⟩
  · rw [if_neg hname]
    constructor
    · rintro (hlt | ⟨hnot, -⟩) <;> omega
    · exact fun hlt => .inl (by omega)

theorem le_getLastD {ps qs : List Nat} (h : List.Forall₂ (· ≤ ·) ps qs) :
    ps.getLastD 0 ≤ qs.getLastD 0 := by
  induction h with
  | nil => exact Nat.le_refl 0
  | @cons p q ps qs hle hrest ih =>
      cases hrest with
      | nil => exact hle
      | cons => simpa using ih

/-- The leftmost positions leave out the least. -/
theorem fits_iff {text needle : Text} {start : Nat} (hne : needle ≠ []) (n : Int) :
    Fits text needle start n ↔
      ∃ ps, leftmost text (chars needle) start = some ps ∧ gap ps needle.length ≤ n := by
  have hchars : ∀ c ∈ chars needle, c ≠ [] := fun c hc =>
    (isChar_of_mem_chars hc).ne_nil
  obtain ⟨c, cs, hcs⟩ := List.exists_cons_of_ne_nil (chars_ne_nil hne)
  constructor
  · rintro ⟨qs, hseries, hfirst, hlast⟩
    obtain ⟨ps, hps, hle⟩ := leftmost_least hchars hseries
    refine ⟨ps, hps, ?_⟩
    have hhead : qs.headD 0 ≤ ps.headD 0 := by
      rw [hcs] at hps hfirst
      obtain ⟨found, rest, hfound, -, rfl⟩ := leftmost_cons_eq_some.mp hps
      obtain ⟨hat, hstart, -⟩ := (indexOf_eq_some (hchars c (by simp [hcs]))).mp hfound
      exact hfirst found hstart hat
    have hends := le_getLastD hle
    rw [gap]
    omega
  · rintro ⟨ps, hps, hgap⟩
    refine ⟨ps, leftmost_sound hchars hps, fun j hj hat => ?_, by rw [gap] at hgap; omega⟩
    rw [hcs] at hps hat
    obtain ⟨found, rest, hfound, -, rfl⟩ := leftmost_cons_eq_some.mp hps
    by_contra hlt
    exact ((indexOf_eq_some (hchars c (by simp [hcs]))).mp hfound).2.2 j hj (by simpa using hlt) hat

/-- How many units the characters leave out decides the worth of a subsequence. -/
theorem scattered_iff (hne : query ≠ []) :
    (∀ tier ps, Scattered C b query tier ps →
      Early C a query (tier + gap ps (toLowerCase C query).length)) ↔
    ∀ n, (Fits (toLowerCase C b) (toLowerCase C query) (nameStart b) n →
        Early C a query (1000 + n)) ∧
      ((∀ m, ¬ Fits (toLowerCase C b) (toLowerCase C query) (nameStart b) m) →
        Fits (toLowerCase C b) (toLowerCase C query) 0 n → Early C a query (2000 + n)) := by
  have hne' := toLowerCase_ne_nil (C := C) hne
  have hnone : (∀ m, ¬ Fits (toLowerCase C b) (toLowerCase C query) (nameStart b) m) ↔
      leftmost (toLowerCase C b) (chars (toLowerCase C query)) (nameStart b) = none := by
    rw [Option.eq_none_iff_forall_ne_some]
    constructor
    · exact fun h ps hps => h _ ((fits_iff hne' _).mpr ⟨ps, hps, Int.le_refl _⟩)
    · rintro h m hm
      obtain ⟨ps, hps, -⟩ := (fits_iff hne' m).mp hm
      exact h ps hps
  constructor
  · refine fun h n => ⟨fun hfits => ?_, fun hno hfits => ?_⟩
    · obtain ⟨ps, hps, hgap⟩ := (fits_iff hne' n).mp hfits
      exact (h 1000 ps (.inName hps)).mono (by omega)
    · obtain ⟨ps, hps, hgap⟩ := (fits_iff hne' n).mp hfits
      exact (h 2000 ps (.anywhere (hnone.mp hno) hps)).mono (by omega)
  · intro h tier ps hps
    cases hps with
    | inName hps => exact (h _).1 ((fits_iff hne' _).mpr ⟨ps, hps, Int.le_refl _⟩)
    | anywhere hno hps =>
        exact (h _).2 (hnone.mpr hno) ((fits_iff hne' _).mpr ⟨ps, hps, Int.le_refl _⟩)

/-- Where the query begins in a path decides the worth of a contiguous match. -/
theorem placed_iff (hfirst : FirstAt (toLowerCase C b) (toLowerCase C query) p) :
    Early C a query (place b p + p) ↔ ∀ i, OccursAt (toLowerCase C b) (toLowerCase C query) i →
      (i < nameStart b → Early C a query (300 + i)) ∧
      (¬ InFolders C b query → Early C a query (if i = nameStart b then i else 100 + i)) := by
  have hle : ∀ i, OccursAt (toLowerCase C b) (toLowerCase C query) i → p ≤ i := fun i hi => by
    by_contra hlt
    exact hfirst.2 i (by omega) hi
  have hfolders : InFolders C b query ↔ p < nameStart b := by
    rw [InFolders, begins_iff hfirst]
    omega
  rw [hfolders]
  constructor
  · intro h i hi
    have hpi := hle i hi
    refine ⟨fun hlt => h.mono ?_, fun hname => h.mono ?_⟩
    · rw [place, if_neg (by omega)]
      omega
    · rw [place, if_pos (by omega)]
      split_ifs <;> omega
  · intro h
    obtain ⟨hin, hname⟩ := h p hfirst.1
    rw [place]
    by_cases hlt : p < nameStart b
    · rw [if_neg (by omega)]
      exact hin hlt
    · rw [if_pos (by omega)]
      convert hname hlt using 1
      split_ifs <;> omega

/-- The ranking holds of two paths exactly if the query begins early enough in the one. -/
theorem ranks_iff (hne : query ≠ []) : Ranks C query a b ↔ Near C query a b := by
  have hne' := toLowerCase_ne_nil (C := C) hne
  rw [Near, ← scattered_iff hne]
  constructor
  · refine fun h => ⟨fun ha hnot tier ps hps => ?_, fun hname hfolders => ?_⟩
    · obtain ⟨p, hp⟩ := exists_firstAt hne' ha
      obtain ⟨m, hm⟩ := exists_match_of_isInfix hne ha
      obtain ⟨m', hm'⟩ := exists_match_of_scattered hne hnot hps
      obtain ⟨tier', ps', hps', hscore⟩ := score_scattered hne hm' hnot
      obtain ⟨rfl, rfl⟩ := hps.unique hps'
      rw [early_iff hp, ← score_direct hne hm hp, ← hscore]
      exact (h m m' hm hm').1 ha hnot
    · obtain ⟨p, hp⟩ := exists_firstAt hne' (isInfix_of_fileName hname)
      obtain ⟨p', hp'⟩ := exists_firstAt hne' hfolders.1
      obtain ⟨m, hm⟩ := exists_match_of_isInfix hne hp.isInfix
      obtain ⟨m', hm'⟩ := exists_match_of_isInfix hne hp'.isInfix
      rw [← placed_iff hp', early_iff hp, ← score_direct hne hm hp, ← score_direct hne hm' hp']
      exact (h m m' hm hm').2 hname hfolders
  · refine fun h m m' hm hm' => ⟨fun ha hnot => ?_, fun hname hfolders => ?_⟩
    · obtain ⟨p, hp⟩ := exists_firstAt hne' ha
      obtain ⟨tier, ps, hps, hscore⟩ := score_scattered hne hm' hnot
      rw [score_direct hne hm hp, hscore, ← early_iff hp]
      exact h.1 ha hnot tier ps hps
    · obtain ⟨p, hp⟩ := exists_firstAt hne' (isInfix_of_fileName hname)
      obtain ⟨p', hp'⟩ := exists_firstAt hne' hfolders.1
      rw [score_direct hne hm hp, score_direct hne hm' hp', ← early_iff hp, placed_iff hp']
      exact h.2 hname hfolders

/-- One folder above the name, and a name found at its start. -/
theorem ranks_near_name :
    Ranks latinGreek (units "foo") (units "src/foo.ts") (units "foo/x.ts") := by
  have hearly : ∀ n : Int, 4 < n → Early latinGreek (units "src/foo.ts") (units "foo") n := by
    intro n hn
    have hfirst : FirstAt (toLowerCase latinGreek (units "src/foo.ts"))
        (toLowerCase latinGreek (units "foo")) 4 := (firstAt_iff (by decide)).mpr (by decide)
    exact (early_iff hfirst n).mpr hn
  refine (ranks_iff (by decide)).mpr ⟨fun _ hnot => absurd ?_ hnot, fun _ _ i hi => ?_⟩
  · decide
  · refine ⟨fun _ => hearly _ (by omega), fun hnot => absurd ⟨0, ?_, by decide⟩ hnot⟩
    exact ((firstAt_iff (by decide)).mpr (by decide)).1

/-- The query stands in a folder of both paths, and in the name of the first one too. -/
theorem folder_hit_hides_name_hit :
    matchPath latinGreek (units "foo/foo.ts") (units "foo") = some ⟨300, [⟨0, 3⟩]⟩ ∧
      matchPath latinGreek (units "foo/x.ts") (units "foo") = some ⟨300, [⟨0, 3⟩]⟩ ∧
      ¬ Ranks latinGreek (units "foo") (units "foo/foo.ts") (units "foo/x.ts") := by
  have ha : matchPath latinGreek (units "foo/foo.ts") (units "foo") = some ⟨300, [⟨0, 3⟩]⟩ := by
    decide
  have hb : matchPath latinGreek (units "foo/x.ts") (units "foo") = some ⟨300, [⟨0, 3⟩]⟩ := by
    decide
  refine ⟨ha, hb, fun h => ?_⟩
  have hfolders : OnlyInFolders latinGreek (units "foo/x.ts") (units "foo") := by
    refine ⟨by decide, fun i hi => ?_⟩
    have hlater : indexOf (toLowerCase latinGreek (units "foo/x.ts"))
        (toLowerCase latinGreek (units "foo")) 1 = none := by decide
    have hzero : i = 0 := by
      by_contra hne
      exact (indexOf_eq_none (by decide)).mp hlater i (by omega) hi
    rw [hzero]
    decide
  exact absurd ((h _ _ ha hb).2 (by decide) hfolders) (Int.lt_irrefl 300)

end Order

end CollabIDE.Search.Ranking
