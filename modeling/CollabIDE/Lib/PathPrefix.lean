import Mathlib.Data.List.DropRight
import Mathlib.Data.List.Infix
/-!
# Keys with a separator

A flat key is a list in which a separator marks the levels, and one key lies
below another when it continues it after a separator.  This module has the
order this gives, the keys above a key as its split into segments produces
them, and what replacing a prefix does to that order.  It mentions no
particular alphabet.
-/

namespace CollabIDE.Lib.PathPrefix

variable {α : Type*} {sep : α} {p q a b : List α}

/-- `p` lies strictly below `a`. -/
def Below (sep : α) (p a : List α) : Prop := a ++ [sep] <+: p

theorem below_iff : Below sep p a ↔ ∃ rest, p = a ++ sep :: rest := by
  constructor
  · rintro ⟨rest, rfl⟩
    exact ⟨rest, by simp⟩
  · rintro ⟨rest, rfl⟩
    exact ⟨rest, by simp⟩

theorem below_append (a rest : List α) : Below sep (a ++ sep :: rest) a :=
  below_iff.mpr ⟨rest, rfl⟩

theorem Below.length_lt (h : Below sep p a) : a.length < p.length := by
  obtain ⟨rest, rfl⟩ := below_iff.mp h
  simp

theorem Below.isPrefix (h : Below sep p a) : a <+: p :=
  (List.prefix_append a [sep]).trans h

theorem not_below_self : ¬ Below sep p p := fun h => absurd h.length_lt (lt_irrefl _)

theorem Below.trans (hpa : Below sep p a) (hab : Below sep a b) : Below sep p b :=
  List.IsPrefix.trans hab hpa.isPrefix

theorem Below.comparable (ha : Below sep p a) (hb : Below sep p b) :
    a = b ∨ Below sep a b ∨ Below sep b a := by
  rcases Nat.lt_trichotomy a.length b.length with h | h | h
  · refine .inr (.inr ?_)
    exact List.prefix_of_prefix_length_le ha hb.isPrefix (by simp; omega)
  · exact .inl ((List.prefix_of_prefix_length_le ha.isPrefix hb.isPrefix h.le).eq_of_length h)
  · refine .inr (.inl ?_)
    exact List.prefix_of_prefix_length_le hb ha.isPrefix (by simp; omega)

theorem below_cons_iff (c : α) : Below sep (c :: p) (c :: a) ↔ Below sep p a := by
  simp [Below, List.cons_prefix_cons]

/-! ## The keys above a key -/

/-- The proper prefixes of a key at its separators, shortest first. -/
def parents [DecidableEq α] (sep : α) (p : List α) : List (List α) :=
  (List.range (p.splitOn sep).dropLast.length).map fun i =>
    [sep].intercalate ((p.splitOn sep).dropLast.take (i + 1))

theorem prefix_intercalate (sep : α) (first : List α) (segs : List (List α)) :
    first <+: [sep].intercalate (first :: segs) := by
  cases segs with
  | nil => simp
  | cons t segs =>
      rw [List.intercalate_cons_cons, List.append_assoc]
      exact List.prefix_append _ _

theorem suffix_intercalate (sep : α) (segs : List (List α)) (last : List α) :
    last <:+ [sep].intercalate (segs ++ [last]) := by
  induction segs with
  | nil => simp
  | cons s segs ih =>
      obtain ⟨t, ts, ht⟩ := List.exists_cons_of_ne_nil (l := segs ++ [last]) (by simp)
      rw [List.cons_append, ht, List.intercalate_cons_cons, ← ht]
      exact ih.trans (List.suffix_append _ _)

variable [DecidableEq α]

theorem splitOn_cons_self (p : List α) : (sep :: p).splitOn sep = [] :: p.splitOn sep := by
  simp [List.splitOn_cons_eq_if_modifyHead]

theorem splitOn_cons_of_ne {c : α} (h : c ≠ sep) (p : List α) :
    (c :: p).splitOn sep = (p.splitOn sep).modifyHead (List.cons c) := by
  simp [List.splitOn_cons_eq_if_modifyHead, h]

theorem parents_nil : parents sep ([] : List α) = [] := by
  simp [parents]

theorem parents_cons_self (p : List α) :
    parents sep (sep :: p) = [] :: (parents sep p).map (List.cons sep) := by
  obtain ⟨s, segs, hs⟩ := List.exists_cons_of_ne_nil (List.splitOn_ne_nil sep p)
  simp only [parents, splitOn_cons_self, hs, List.dropLast_cons_cons, List.length_cons,
    List.range_succ_eq_map, List.map_cons, List.map_map]
  congr 1
  refine List.map_congr_left fun i _ => ?_
  cases hd : (s :: segs).dropLast <;> simp_all [List.intercalate]

theorem parents_cons_of_ne {c : α} (h : c ≠ sep) (p : List α) :
    parents sep (c :: p) = (parents sep p).map (List.cons c) := by
  obtain ⟨s, segs, hs⟩ := List.exists_cons_of_ne_nil (List.splitOn_ne_nil sep p)
  cases segs with
  | nil => simp [parents, splitOn_cons_of_ne h, hs]
  | cons t segs =>
      simp only [parents, splitOn_cons_of_ne h, hs, List.modifyHead_cons, List.dropLast_cons_cons,
        List.length_cons, List.map_map]
      refine List.map_congr_left fun i _ => ?_
      simp only [Function.comp_apply, List.take_succ_cons]
      exact List.intercalate_cons_cons_left

/-- The split yields exactly the keys above. -/
theorem mem_parents : a ∈ parents sep p ↔ Below sep p a := by
  induction p generalizing a with
  | nil => simp [parents_nil, Below]
  | cons c p ih =>
      by_cases hc : c = sep
      · subst hc
        rw [parents_cons_self, List.mem_cons, List.mem_map]
        cases a with
        | nil => simp [Below]
        | cons d a => simp [Below, ih, List.cons_prefix_cons, eq_comm, and_comm]
      · rw [parents_cons_of_ne hc, List.mem_map]
        cases a with
        | nil => simp [Below, List.cons_prefix_cons, Ne.symm hc]
        | cons d a => simp [Below, ih, List.cons_prefix_cons, eq_comm, and_comm]

theorem pairwise_parents (sep : α) (p : List α) :
    (parents sep p).Pairwise fun a b => Below sep b a := by
  induction p with
  | nil => simp [parents_nil]
  | cons c p ih =>
      have hmap : ((parents sep p).map (List.cons c)).Pairwise fun a b => Below sep b a :=
        List.pairwise_map.mpr (ih.imp fun h => (below_cons_iff c).mpr h)
      by_cases hc : c = sep
      · subst hc
        rw [parents_cons_self]
        refine List.pairwise_cons.mpr ⟨fun b hb => ?_, hmap⟩
        obtain ⟨d, -, rfl⟩ := List.mem_map.mp hb
        simp [Below]
      · rw [parents_cons_of_ne hc]
        exact hmap

theorem nodup_parents (sep : α) (p : List α) : (parents sep p).Nodup := by
  refine (pairwise_parents sep p).imp fun {a b} h he => ?_
  subst he
  exact not_below_self h

/-! ## Segments -/

theorem sep_not_mem_segment {s : List α} (hs : s ∈ p.splitOn sep) : sep ∉ s := by
  induction p generalizing s with
  | nil =>
      rw [List.splitOn_nil, List.mem_singleton] at hs
      simp [hs]
  | cons c p ih =>
      by_cases hc : c = sep
      · subst hc
        rw [splitOn_cons_self, List.mem_cons] at hs
        rcases hs with rfl | hs
        · simp
        · exact ih hs
      · obtain ⟨t, segs, ht⟩ := List.exists_cons_of_ne_nil (List.splitOn_ne_nil sep p)
        rw [ht] at ih
        rw [splitOn_cons_of_ne hc, ht, List.modifyHead_cons, List.mem_cons] at hs
        rcases hs with rfl | hs
        · rw [List.mem_cons, not_or]
          exact ⟨Ne.symm hc, ih List.mem_cons_self⟩
        · exact ih (List.mem_cons_of_mem t hs)

theorem splitOn_eq_pair : p.splitOn sep = [a, b] ↔ sep ∉ a ∧ sep ∉ b ∧ a ++ sep :: b = p := by
  constructor
  · intro h
    have hjoin : [sep].intercalate (p.splitOn sep) = p := List.intercalate_splitOn sep
    rw [h] at hjoin
    have hpart : ∀ s ∈ [a, b], sep ∉ s := fun s hs => sep_not_mem_segment (h ▸ hs)
    refine ⟨hpart a (by simp), hpart b (by simp), ?_⟩
    simpa [List.intercalate] using hjoin
  · rintro ⟨ha, hb, rfl⟩
    rw [List.splitOn_append_cons_self, List.splitOn_eq_singleton ha,
      List.splitOn_eq_singleton hb, List.singleton_append]

theorem mem_segment_iff {c : α} (hc : c ≠ sep) : (∃ s ∈ p.splitOn sep, c ∈ s) ↔ c ∈ p := by
  induction p with
  | nil => simp
  | cons d p ih =>
      by_cases hd : d = sep
      · subst hd
        rw [splitOn_cons_self, List.mem_cons, ← ih]
        simp [hc]
      · obtain ⟨t, segs, ht⟩ := List.exists_cons_of_ne_nil (List.splitOn_ne_nil sep p)
        rw [splitOn_cons_of_ne hd, List.mem_cons, ← ih, ht, List.modifyHead_cons]
        simp [or_assoc]

theorem exists_segment_prefix (sep : α) (p : List α) : ∃ s ∈ p.splitOn sep, s <+: p := by
  obtain ⟨s, segs, hs⟩ := List.exists_cons_of_ne_nil (List.splitOn_ne_nil sep p)
  refine ⟨s, hs ▸ List.mem_cons_self, ?_⟩
  have hprefix := prefix_intercalate sep s segs
  rwa [← hs, List.intercalate_splitOn] at hprefix

theorem exists_segment_suffix (sep : α) (p : List α) : ∃ s ∈ p.splitOn sep, s <:+ p := by
  have hlast := List.dropLast_append_getLast (List.splitOn_ne_nil sep p)
  refine ⟨_, List.getLast_mem (List.splitOn_ne_nil sep p), ?_⟩
  have hsuffix := suffix_intercalate sep (p.splitOn sep).dropLast
    ((p.splitOn sep).getLast (List.splitOn_ne_nil sep p))
  rwa [hlast, List.intercalate_splitOn] at hsuffix

/-! ## The key directly above -/

/-- What stands in front of the last separator. -/
def beforeLast (sep : α) (p : List α) : List α := (p.rdropWhile (· ≠ sep)).dropLast

/-- What follows the last separator. -/
def afterLast (sep : α) (p : List α) : List α := p.rtakeWhile (· ≠ sep)

theorem beforeLast_append_afterLast (h : sep ∈ p) :
    beforeLast sep p ++ sep :: afterLast sep p = p := by
  have hne : p.rdropWhile (· ≠ sep) ≠ [] := by
    intro hnil
    have hall := List.rdropWhile_eq_nil_iff.mp hnil sep h
    simp at hall
  have hlast : (p.rdropWhile (· ≠ sep)).getLast hne = sep := by
    simpa using List.rdropWhile_last_not (· ≠ sep) p hne
  have hfront := List.dropLast_append_getLast hne
  rw [hlast] at hfront
  calc beforeLast sep p ++ sep :: afterLast sep p
      = (beforeLast sep p ++ [sep]) ++ afterLast sep p := by simp
    _ = p.rdropWhile (· ≠ sep) ++ afterLast sep p := by
        rw [beforeLast, hfront]
    _ = p := List.rdropWhile_append_rtakeWhile

theorem not_mem_afterLast (sep : α) (p : List α) : sep ∉ afterLast sep p := by
  intro hmem
  have hwhile := List.mem_rtakeWhile_imp hmem
  simp at hwhile

omit [DecidableEq α]

theorem below_append_iff {rest : List α} (h : sep ∉ rest) :
    Below sep (q ++ sep :: rest) a ↔ a = q ∨ Below sep q a := by
  constructor
  · intro ha
    rcases ha.comparable (below_append q rest) with heq | habove | hbelow
    · exact .inl heq
    · obtain ⟨s, rfl⟩ := below_iff.mp habove
      obtain ⟨s', hs'⟩ := below_iff.mp ha
      rw [List.append_assoc, List.append_cancel_left_eq, List.cons_append, List.cons.injEq] at hs'
      exact absurd (hs'.2 ▸ by simp) h
    · exact .inr hbelow
  · rintro (rfl | hqa)
    · exact below_append _ rest
    · exact (below_append q rest).trans hqa

/-! ## Replacing a prefix -/

/-- `p` with its prefix `a` replaced by `b`. -/
def rebase (a b p : List α) : List α := b ++ p.drop a.length

@[simp] theorem rebase_append (a b rest : List α) : rebase a b (a ++ rest) = b ++ rest := by
  simp [rebase]

theorem below_rebase (b : List α) (h : Below sep p a) : Below sep (rebase a b p) b := by
  obtain ⟨rest, rfl⟩ := below_iff.mp h
  rw [rebase_append]
  exact below_append b rest

theorem rebase_injOn (hp : a <+: p) (hq : a <+: q) (h : rebase a b p = rebase a b q) :
    p = q := by
  obtain ⟨r, rfl⟩ := hp
  obtain ⟨t, rfl⟩ := hq
  rw [rebase_append, rebase_append, List.append_cancel_left_eq] at h
  rw [h]

theorem below_rebase_rebase (hp : a <+: p) (hq : a <+: q) :
    Below sep (rebase a b p) (rebase a b q) ↔ Below sep p q := by
  obtain ⟨r, rfl⟩ := hp
  obtain ⟨t, rfl⟩ := hq
  simp [Below, List.prefix_append_right_inj]

/-- The keys above a rebased key: those above the new prefix, the new prefix, and the rebased keys
from between the old prefix and the key. -/
theorem below_rebase_iff (h : Below sep p a) :
    Below sep (rebase a b p) q ↔
      Below sep b q ∨ q = b ∨
        ∃ m, Below sep m a ∧ Below sep p m ∧ q = rebase a b m := by
  constructor
  · intro hq
    rcases hq.comparable (below_rebase b h) with rfl | hqb | hbq
    · exact .inr (.inl rfl)
    · refine .inr (.inr ?_)
      obtain ⟨rest, rfl⟩ := below_iff.mp hqb
      have hm : b ++ sep :: rest = rebase a b (a ++ sep :: rest) :=
        (rebase_append a b _).symm
      refine ⟨a ++ sep :: rest, below_append a rest, ?_, hm⟩
      rw [hm] at hq
      exact (below_rebase_rebase h.isPrefix (List.prefix_append _ _)).mp hq
    · exact .inl hbq
  · rintro (hbq | rfl | ⟨m, hma, hpm, rfl⟩)
    · exact (below_rebase b h).trans hbq
    · exact below_rebase q h
    · exact (below_rebase_rebase h.isPrefix hma.isPrefix).mpr hpm

/-- Rebasing a key below `a` exchanges the segments of `a` for those of the new prefix. -/
theorem splitOn_rebase [DecidableEq α] (b : List α) (h : Below sep p a) :
    ∃ rest, p.splitOn sep = a.splitOn sep ++ rest ∧
      (rebase a b p).splitOn sep = b.splitOn sep ++ rest := by
  obtain ⟨rest, rfl⟩ := below_iff.mp h
  refine ⟨rest.splitOn sep, List.splitOn_append_cons_self a rest, ?_⟩
  rw [rebase_append]
  exact List.splitOn_append_cons_self b rest

end CollabIDE.Lib.PathPrefix
