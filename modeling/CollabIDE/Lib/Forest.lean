import Mathlib.Data.List.Nodup
import Mathlib.Data.Set.Defs
import Mathlib.Logic.Relation
/-!
# Trees grown from lists of children

A store that has for each element the list of its children describes the tree
below every element.  This module has the trees, growing one to a depth, and
what its values are when the store is arborescent: the elements reached from
its root, each once.
-/

namespace CollabIDE.Lib.Forest

open Relation

/-- A value and the trees under it. -/
inductive Tree (α : Type*)
  | node (value : α) (children : List (Tree α))

variable {α : Type*} {children : α → List α} {rank : α → Nat} {S : Set α}

namespace Tree

def value : Tree α → α
  | .node a _ => a

def subtrees : Tree α → List (Tree α)
  | .node _ ts => ts

mutual

/-- The values of a tree, each before those under it. -/
def preorder : Tree α → List α
  | .node a ts => a :: preorderAll ts

def preorderAll : List (Tree α) → List α
  | [] => []
  | t :: ts => preorder t ++ preorderAll ts

end

/-- What holds of a node if it holds of the trees under it holds of every tree. -/
@[elab_as_elim]
theorem induct {motive : Tree α → Prop}
    (node : ∀ a ts, (∀ t ∈ ts, motive t) → motive (.node a ts)) : ∀ t, motive t
  | .node a ts => node a ts fun t _ => induct node t

mutual

/-- The nodes of a tree in preorder: the values above each, from the nearest on, and the tree it is
the root of. -/
def entries (above : List α) : Tree α → List (List α × Tree α)
  | .node a ts => (above, .node a ts) :: entriesAll (a :: above) ts

def entriesAll (above : List α) : List (Tree α) → List (List α × Tree α)
  | [] => []
  | t :: ts => entries above t ++ entriesAll above ts

end

theorem preorderAll_eq_flatMap (ts : List (Tree α)) : preorderAll ts = ts.flatMap preorder := by
  induction ts with
  | nil => rfl
  | cons t ts ih => rw [preorderAll, ih, List.flatMap_cons]

theorem entriesAll_eq_flatMap (above : List α) (ts : List (Tree α)) :
    entriesAll above ts = ts.flatMap (entries above) := by
  induction ts with
  | nil => rfl
  | cons t ts ih => rw [entriesAll, ih, List.flatMap_cons]

theorem mem_entriesAll {above : List α} {ts : List (Tree α)} {e : List α × Tree α} :
    e ∈ entriesAll above ts ↔ ∃ t ∈ ts, e ∈ t.entries above := by
  rw [entriesAll_eq_flatMap, List.mem_flatMap]

theorem map_value_entries (above : List α) (t : Tree α) :
    (t.entries above).map (fun e => e.2.value) = t.preorder := by
  induction t using Tree.induct generalizing above with
  | node a ts ih =>
      rw [entries, preorder, List.map_cons, entriesAll_eq_flatMap, preorderAll_eq_flatMap,
        List.map_flatMap]
      exact congrArg (a :: ·) (List.flatMap_congr fun t ht => ih t ht (a :: above))

theorem map_value_entriesAll (above : List α) (ts : List (Tree α)) :
    (entriesAll above ts).map (fun e => e.2.value) = preorderAll ts := by
  rw [entriesAll_eq_flatMap, preorderAll_eq_flatMap, List.map_flatMap]
  exact List.flatMap_congr fun t _ => map_value_entries above t

theorem preorderAll_eq_append {ts : List (Tree α)} {front back : List α} {b : α}
    (h : preorderAll ts = front ++ b :: back) :
    ∃ t ∈ ts, ∃ before after, t.preorder = before ++ b :: after ∧ ∀ a ∈ before, a ∈ front := by
  induction ts generalizing front with
  | nil => cases front <;> cases h
  | cons t ts ih =>
      rw [preorderAll, List.append_eq_append_iff] at h
      rcases h with ⟨before, rfl, hrest⟩ | ⟨after, hfirst, hrest⟩
      · obtain ⟨t', ht', before', after', heq, hbefore⟩ := ih hrest
        exact ⟨t', List.mem_cons_of_mem _ ht', before', after', heq, fun a ha =>
          List.mem_append_right _ (hbefore a ha)⟩
      · cases after with
        | nil =>
            have hrest' : preorderAll ts = [] ++ b :: back := hrest.symm
            obtain ⟨t', ht', before', after', heq, hbefore⟩ := ih hrest'
            exact ⟨t', List.mem_cons_of_mem _ ht', before', after', heq, fun a ha =>
              absurd (hbefore a ha) List.not_mem_nil⟩
        | cons c after =>
            obtain ⟨rfl, -⟩ := List.cons.inj hrest
            exact ⟨t, List.mem_cons_self, front, after, hfirst, fun a ha => ha⟩

theorem mem_of_mem_entries {above : List α} {t : Tree α} {e : List α × Tree α} {a : α}
    (he : e ∈ t.entries above) (ha : a ∈ above) : a ∈ e.1 := by
  induction t using Tree.induct generalizing above with
  | node b ts ih =>
      rw [entries, List.mem_cons, mem_entriesAll] at he
      rcases he with rfl | ⟨t, ht, he⟩
      · exact ha
      · exact ih t ht he (List.mem_cons_of_mem b ha)

theorem mem_preorderAll {ts : List (Tree α)} {a : α} :
    a ∈ preorderAll ts ↔ ∃ t ∈ ts, a ∈ t.preorder := by
  induction ts with
  | nil => simp [preorderAll]
  | cons t ts ih => simp [preorderAll, ih]

theorem nodup_preorderAll {ts : List (Tree α)} (heach : ∀ t ∈ ts, t.preorder.Nodup)
    (happart : ts.Pairwise fun t t' => t.preorder.Disjoint t'.preorder) :
    (preorderAll ts).Nodup := by
  induction ts with
  | nil => simp [preorderAll]
  | cons t ts ih =>
      obtain ⟨hfirst, hrest⟩ := List.pairwise_cons.mp happart
      refine List.Nodup.append (heach t List.mem_cons_self)
        (ih (fun t' ht' => heach t' (List.mem_cons_of_mem _ ht')) hrest) fun a ha ha' => ?_
      obtain ⟨t', ht', ha'⟩ := mem_preorderAll.mp ha'
      exact hfirst t' ht' ha ha'

end Tree

/-- The tree below an element, cut off at a depth. -/
def grow (children : α → List α) : Nat → α → Tree α
  | 0, a => .node a []
  | depth + 1, a => .node a ((children a).map (grow children depth))

/-- Under every value stand its children, in their order. -/
inductive Grown (children : α → List α) : Tree α → Prop
  | node (a : α) (ts : List (Tree α)) (hvalues : ts.map Tree.value = children a)
      (hgrown : ∀ t ∈ ts, Grown children t) : Grown children (.node a ts)

@[simp] theorem value_grow (children : α → List α) (depth : Nat) (a : α) :
    (grow children depth a).value = a := by
  cases depth <;> rfl

/-- `b` is `a`, or a child of one that is below `a`. -/
def Reaches (children : α → List α) : α → α → Prop :=
  ReflTransGen fun a b => b ∈ children a

/-- The values of a grown tree are what its root reaches. -/
theorem mem_preorder {t : Tree α} (h : Grown children t) {b : α} :
    b ∈ t.preorder ↔ Reaches children t.value b := by
  induction h with
  | node a ts hvalues _ ih =>
      rw [Reaches, ReflTransGen.cases_head_iff, Tree.preorder, List.mem_cons,
        Tree.mem_preorderAll, eq_comm]
      refine or_congr_right ?_
      constructor
      · rintro ⟨t, ht, hb⟩
        exact ⟨t.value, hvalues ▸ List.mem_map_of_mem ht, (ih t ht).mp hb⟩
      · rintro ⟨c, hc, hb⟩
        obtain ⟨t, ht, rfl⟩ := List.mem_map.mp (hvalues ▸ hc)
        exact ⟨t, ht, (ih t ht).mpr hb⟩

theorem Grown.subtrees {t : Tree α} (h : Grown children t) :
    t.subtrees.map Tree.value = children t.value := by
  cases h with
  | node a ts hvalues _ => exact hvalues

theorem Grown.of_mem_entries {t : Tree α} (h : Grown children t) {above : List α}
    {e : List α × Tree α} (he : e ∈ t.entries above) : Grown children e.2 := by
  induction h generalizing above with
  | node a ts hvalues hgrown ih =>
      rw [Tree.entries, List.mem_cons, Tree.mem_entriesAll] at he
      rcases he with rfl | ⟨t, ht, he⟩
      · exact .node a ts hvalues hgrown
      · exact ih t ht he

/-- A value of a grown tree comes behind one it is a child of, but for the root. -/
theorem Grown.exists_before {t : Tree α} (h : Grown children t) {front back : List α} {b : α}
    (heq : t.preorder = front ++ b :: back) : b = t.value ∨ ∃ a ∈ front, b ∈ children a := by
  induction h generalizing front back with
  | node a ts hvalues _ ih =>
      rw [Tree.preorder] at heq
      cases front with
      | nil => exact .inl (List.cons.inj heq).1.symm
      | cons c front =>
          obtain ⟨rfl, hrest⟩ := List.cons.inj heq
          obtain ⟨t, ht, before, after, hpreorder, hbefore⟩ := Tree.preorderAll_eq_append hrest
          right
          rcases ih t ht hpreorder with rfl | ⟨c, hc, hb⟩
          · exact ⟨a, List.mem_cons_self, hvalues ▸ List.mem_map_of_mem ht⟩
          · exact ⟨c, List.mem_cons_of_mem _ (hbefore c hc), hb⟩

/-- Among the elements of `S`: no cycle, no element twice a child or the child of two. -/
structure Arborescent (children : α → List α) (rank : α → Nat) (S : Set α) : Prop where
  closed : ∀ {a b}, a ∈ S → b ∈ children a → b ∈ S
  descends : ∀ {a b}, a ∈ S → b ∈ children a → rank b < rank a
  nodup : ∀ {a}, a ∈ S → (children a).Nodup
  parent : ∀ {a a' b}, a ∈ S → a' ∈ S → b ∈ children a → b ∈ children a' → a = a'

namespace Arborescent

variable (h : Arborescent children rank S)

include h

/-- A depth above the rank cuts nothing off. -/
theorem grown_grow {depth : Nat} {a : α} (ha : a ∈ S) (hdepth : rank a < depth) :
    Grown children (grow children depth a) := by
  induction depth generalizing a with
  | zero => omega
  | succ depth ih =>
      refine .node a _ ?_ fun t ht => ?_
      · rw [List.map_map]
        exact (List.map_congr_left fun b _ => value_grow children depth b).trans (List.map_id _)
      · obtain ⟨b, hb, rfl⟩ := List.mem_map.mp ht
        have hlt := h.descends ha hb
        exact ih (h.closed ha hb) (by omega)

theorem mem_of_reaches {a b : α} (ha : a ∈ S) (hb : Reaches children a b) : b ∈ S := by
  induction hb with
  | refl => exact ha
  | tail _ hstep ih => exact h.closed ih hstep

theorem rank_le_of_reaches {a b : α} (ha : a ∈ S) (hb : Reaches children a b) :
    rank b ≤ rank a := by
  induction hb with
  | refl => exact Nat.le_refl _
  | tail hreach hstep ih =>
      have hlt := h.descends (h.mem_of_reaches ha hreach) hstep
      omega

theorem comparable {a a' b : α} (ha : a ∈ S) (ha' : a' ∈ S) (hb : Reaches children a b)
    (hb' : Reaches children a' b) : Reaches children a a' ∨ Reaches children a' a := by
  induction hb with
  | refl => exact .inr hb'
  | tail hreach hstep ih =>
      rcases ReflTransGen.cases_tail hb' with rfl | ⟨c, hreach', hstep'⟩
      · exact .inl (ReflTransGen.tail hreach hstep)
      · have hparent := h.parent (h.mem_of_reaches ha hreach) (h.mem_of_reaches ha' hreach')
          hstep hstep'
        exact ih (hparent ▸ hreach')

theorem eq_of_sibling {a b b' : α} (ha : a ∈ S) (hb : b ∈ children a) (hb' : b' ∈ children a)
    (hreach : Reaches children b b') : b = b' := by
  rcases ReflTransGen.cases_tail hreach with heq | ⟨c, hc, hstep⟩
  · exact heq.symm
  · have hbS := h.closed ha hb
    have hparent := h.parent ha (h.mem_of_reaches hbS hc) hb' hstep
    have hle := h.rank_le_of_reaches hbS (hparent ▸ hc)
    have hlt := h.descends ha hb
    omega

theorem nodup_preorder {t : Tree α} (hgrown : Grown children t) (ht : t.value ∈ S) :
    t.preorder.Nodup := by
  induction hgrown with
  | node a ts hvalues hgrown ih =>
      change a ∈ S at ht
      have hchild : ∀ t ∈ ts, t.value ∈ children a := fun t ht =>
        hvalues ▸ List.mem_map_of_mem ht
      have hmem : ∀ t ∈ ts, t.value ∈ S := fun t h' => h.closed ht (hchild t h')
      refine List.nodup_cons.mpr ⟨fun hself => ?_, Tree.nodup_preorderAll
        (fun t h' => ih t h' (hmem t h')) ?_⟩
      · obtain ⟨t, h', ha⟩ := Tree.mem_preorderAll.mp hself
        have hle := h.rank_le_of_reaches (hmem t h') ((mem_preorder (hgrown t h')).mp ha)
        have hlt := h.descends ht (hchild t h')
        omega
      · have hdistinct : ts.Pairwise fun t t' => t.value ≠ t'.value :=
          List.pairwise_map.mp (hvalues ▸ h.nodup ht)
        refine hdistinct.imp_of_mem fun {t t'} h₁ h₂ hne b hb hb' => hne ?_
        have hreach := (mem_preorder (hgrown t h₁)).mp hb
        have hreach' := (mem_preorder (hgrown t' h₂)).mp hb'
        rcases h.comparable (hmem t h₁) (hmem t' h₂) hreach hreach' with hleft | hright
        · exact h.eq_of_sibling ht (hchild t h₁) (hchild t' h₂) hleft
        · exact (h.eq_of_sibling ht (hchild t' h₂) (hchild t h₁) hright).symm

/-- Trees whose roots are nobody's children have all their values once. -/
theorem nodup_preorderAll {ts : List (Tree α)} (hgrown : ∀ t ∈ ts, Grown children t)
    (hmem : ∀ t ∈ ts, t.value ∈ S) (hroot : ∀ t ∈ ts, ∀ a ∈ S, t.value ∉ children a)
    (hnodup : (ts.map Tree.value).Nodup) : (Tree.preorderAll ts).Nodup := by
  refine Tree.nodup_preorderAll (fun t ht => h.nodup_preorder (hgrown t ht) (hmem t ht)) ?_
  have hdistinct : ts.Pairwise fun t t' => t.value ≠ t'.value := List.pairwise_map.mp hnodup
  have habove : ∀ t ∈ ts, ∀ a ∈ S, Reaches children a t.value → a = t.value := by
    intro t ht a ha hreach
    rcases ReflTransGen.cases_tail hreach with heq | ⟨c, hc, hstep⟩
    · exact heq.symm
    · exact absurd hstep (hroot t ht c (h.mem_of_reaches ha hc))
  refine hdistinct.imp_of_mem fun {t t'} h₁ h₂ hne b hb hb' => hne ?_
  have hreach := (mem_preorder (hgrown t h₁)).mp hb
  have hreach' := (mem_preorder (hgrown t' h₂)).mp hb'
  rcases h.comparable (hmem t h₁) (hmem t' h₂) hreach hreach' with hleft | hright
  · exact habove t' h₂ _ (hmem t h₁) hleft
  · exact (habove t h₁ _ (hmem t' h₂) hright).symm

end Arborescent

end CollabIDE.Lib.Forest
