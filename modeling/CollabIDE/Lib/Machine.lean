import Mathlib.Data.List.Basic
/-!
# Runs of partial step functions

An interleaving model is a step function `σ → α → Option σ`: `none` where the
event is not enabled.  This module has the runs of such a function over a list
of events, the induction rules for what every run preserves, runs all of whose
steps meet a side condition, and runs seen from one component.  It mentions no
particular system.
-/

namespace CollabIDE.Lib.Machine

variable {σ τ α : Type*}

/-- Take the events one after another; `none` once one of them is not enabled. -/
def run (step : σ → α → Option σ) : σ → List α → Option σ
  | s, [] => some s
  | s, a :: as => (step s a).bind fun t => run step t as

variable {step : σ → α → Option σ}

@[simp] theorem run_nil (s : σ) : run step s [] = some s := rfl

theorem run_cons (s : σ) (a : α) (as : List α) :
    run step s (a :: as) = (step s a).bind fun t => run step t as := rfl

theorem run_cons_eq_some {s u : σ} {a : α} {as : List α} :
    run step s (a :: as) = some u ↔
      ∃ t, step s a = some t ∧ run step t as = some u := by
  rw [run_cons, Option.bind_eq_some_iff]

theorem run_append (s : σ) (as bs : List α) :
    run step s (as ++ bs) = (run step s as).bind fun t => run step t bs := by
  induction as generalizing s with
  | nil => rfl
  | cons a as ih =>
      rw [List.cons_append, run_cons, run_cons]
      cases step s a with
      | none => rfl
      | some t => exact ih t

theorem run_append_eq_some {s u : σ} {as bs : List α} :
    run step s (as ++ bs) = some u ↔
      ∃ t, run step s as = some t ∧ run step t bs = some u := by
  rw [run_append, Option.bind_eq_some_iff]

/-- What every step preserves, every run preserves. -/
theorem run_invariant {P : σ → Prop}
    (hstep : ∀ s a t, P s → step s a = some t → P t)
    {s t : σ} {as : List α} (hs : P s) (h : run step s as = some t) : P t := by
  induction as generalizing s with
  | nil =>
      cases h
      exact hs
  | cons a as ih =>
      obtain ⟨u, hu, hrest⟩ := run_cons_eq_some.mp h
      exact ih (hstep s a u hs hu) hrest

/-- A rank that no step raises and each event of a kind lowers bounds how many of them a run has. -/
theorem run_countP_le (rank : σ → Nat) (p : α → Bool)
    (hstep : ∀ s a t, step s a = some t → rank t + (if p a then 1 else 0) ≤ rank s)
    {s t : σ} {as : List α} (h : run step s as = some t) : rank t + as.countP p ≤ rank s := by
  induction as generalizing s with
  | nil =>
      cases h
      exact Nat.le_refl _
  | cons a as ih =>
      obtain ⟨u, hu, hrest⟩ := run_cons_eq_some.mp h
      have hhere := hstep s a u hu
      have hlater := ih hrest
      rw [List.countP_cons]
      omega

/-! ## Runs whose steps meet a condition -/

/-- Every step of the run is taken in a state where `ok` allows it. -/
def Meets (step : σ → α → Option σ) (ok : σ → α → Prop) : σ → List α → Prop
  | _, [] => True
  | s, a :: as => ok s a ∧ ∀ t, step s a = some t → Meets step ok t as

variable {ok : σ → α → Prop}

theorem meets_cons {s t : σ} {a : α} {as : List α} (h : step s a = some t) :
    Meets step ok s (a :: as) ↔ ok s a ∧ Meets step ok t as := by
  constructor
  · rintro ⟨hok, hrest⟩
    exact ⟨hok, hrest t h⟩
  · rintro ⟨hok, hrest⟩
    refine ⟨hok, fun u hu => ?_⟩
    rw [h, Option.some.injEq] at hu
    exact hu ▸ hrest

/-- Whether a run meets a condition can be computed. -/
instance decidableMeets [∀ s a, Decidable (ok s a)] :
    ∀ (s : σ) (as : List α), Decidable (Meets step ok s as)
  | _, [] => isTrue trivial
  | s, a :: as =>
    match h : step s a with
    | none =>
      have hstuck : ∀ t, step s a ≠ some t := fun t ht => Option.some_ne_none t (ht.symm.trans h)
      decidable_of_iff (ok s a) ⟨fun hok => ⟨hok, fun t ht => absurd ht (hstuck t)⟩, And.left⟩
    | some t =>
      have := decidableMeets t as
      decidable_of_iff (ok s a ∧ Meets step ok t as) (meets_cons h).symm

theorem meets_append {s t : σ} {as bs : List α} (h : run step s as = some t) :
    Meets step ok s (as ++ bs) ↔ Meets step ok s as ∧ Meets step ok t bs := by
  induction as generalizing s with
  | nil =>
      cases h
      exact (and_iff_right trivial).symm
  | cons a as ih =>
      obtain ⟨u, hu, hrest⟩ := run_cons_eq_some.mp h
      rw [List.cons_append, meets_cons hu, meets_cons hu, ih hrest, and_assoc]

theorem Meets.and {ok' : σ → α → Prop} {s : σ} {as : List α} (h : Meets step ok s as)
    (h' : Meets step ok' s as) : Meets step (fun t a => ok t a ∧ ok' t a) s as := by
  induction as generalizing s with
  | nil => exact trivial
  | cons a as ih => exact ⟨⟨h.1, h'.1⟩, fun t ht => ih (h.2 t ht) (h'.2 t ht)⟩

theorem Meets.mono {ok' : σ → α → Prop} {s : σ} {as : List α} (h : Meets step ok s as)
    (himp : ∀ t, ∀ a ∈ as, ok t a → ok' t a) : Meets step ok' s as := by
  induction as generalizing s with
  | nil => exact trivial
  | cons a as ih =>
      refine ⟨himp s a List.mem_cons_self h.1, fun t ht => ih (h.2 t ht) fun u b hb => ?_⟩
      exact himp u b (List.mem_cons_of_mem _ hb)

theorem meets_of_forall {s : σ} {as : List α} (h : ∀ a ∈ as, ∀ t, ok t a) :
    Meets step ok s as := by
  induction as generalizing s with
  | nil => exact trivial
  | cons a as ih =>
      exact ⟨h a List.mem_cons_self s, fun t _ => ih fun b hb => h b (List.mem_cons_of_mem _ hb)⟩

theorem meets_of_invariant {P : σ → Prop} {s : σ} {as : List α} (hs : P s)
    (hok : ∀ a ∈ as, ∀ s, P s → ok s a)
    (hstep : ∀ a ∈ as, ∀ s t, P s → step s a = some t → P t) : Meets step ok s as := by
  induction as generalizing s with
  | nil => exact trivial
  | cons a as ih =>
      refine ⟨hok a List.mem_cons_self s hs, fun t ht => ?_⟩
      exact ih (hstep a List.mem_cons_self s t hs ht)
        (fun b hb => hok b (List.mem_cons_of_mem _ hb))
        fun b hb => hstep b (List.mem_cons_of_mem _ hb)

/-- Invariant rule for runs whose steps all meet `ok`. -/
theorem run_invariant_of_meets {P : σ → Prop}
    (hstep : ∀ s a t, P s → ok s a → step s a = some t → P t)
    {s t : σ} {as : List α} (hs : P s) (hok : Meets step ok s as)
    (h : run step s as = some t) : P t := by
  induction as generalizing s with
  | nil =>
      cases h
      exact hs
  | cons a as ih =>
      obtain ⟨u, hu, hrest⟩ := run_cons_eq_some.mp h
      have hmeets := (meets_cons hu).mp hok
      exact ih (hstep s a u hs hmeets.1 hu) hmeets.2 hrest

/-- Two conditions that agree where an invariant holds are met by the same runs. -/
theorem meets_congr {P : σ → Prop} {ok' : σ → α → Prop}
    (hstep : ∀ s a t, P s → step s a = some t → P t)
    (hok : ∀ s a t, P s → step s a = some t → (ok s a ↔ ok' s a))
    {s u : σ} {as : List α} (hs : P s) (h : run step s as = some u) :
    Meets step ok s as ↔ Meets step ok' s as := by
  induction as generalizing s with
  | nil => exact Iff.rfl
  | cons a as ih =>
      obtain ⟨t, ht, hrest⟩ := run_cons_eq_some.mp h
      rw [meets_cons ht, meets_cons ht, hok s a t hs ht, ih (hstep s a t hs ht) hrest]

/-- A run that does not meet the condition has a step that breaks it. -/
theorem exists_step_of_not_meets {s t : σ} {as : List α}
    (h : run step s as = some t) (hok : ¬ Meets step ok s as) :
    ∃ pre a post u v, as = pre ++ a :: post ∧ run step s pre = some u ∧
      ¬ ok u a ∧ step u a = some v ∧ run step v post = some t := by
  induction as generalizing s with
  | nil => exact absurd trivial hok
  | cons a as ih =>
      obtain ⟨u, hu, hrest⟩ := run_cons_eq_some.mp h
      by_cases hhere : ok s a
      · have hlater : ¬ Meets step ok u as := fun hm =>
          hok ((meets_cons hu).mpr ⟨hhere, hm⟩)
        obtain ⟨pre, b, post, v, w, rfl, hpre, hb, hv, hpost⟩ := ih hrest hlater
        exact ⟨a :: pre, b, post, v, w, rfl,
          run_cons_eq_some.mpr ⟨u, hu, hpre⟩, hb, hv, hpost⟩
      · exact ⟨[], a, as, s, u, rfl, rfl, hhere, hu, hrest⟩

/-- Where allowed steps keep `I`, and a step from `I` reaches `P` just when it is allowed, `P` holds
all along a run just when every step is allowed. -/
theorem forall_prefix_iff_meets_of_invariant {I P : σ → Prop}
    (hinv : ∀ s a t, I s → ok s a → step s a = some t → I t)
    (hstep : ∀ s a t, I s → step s a = some t → (P t ↔ ok s a))
    {s u : σ} {as : List α} (hI : I s) (hs : P s) (h : run step s as = some u) :
    (∀ pre t, pre <+: as → run step s pre = some t → P t) ↔ Meets step ok s as := by
  constructor
  · intro hall
    induction as generalizing s with
    | nil => exact trivial
    | cons a as ih =>
        obtain ⟨t, ht, hrest⟩ := run_cons_eq_some.mp h
        have hPt : P t := hall [a] t (by simp) (run_cons_eq_some.mpr ⟨t, ht, rfl⟩)
        have hok := (hstep s a t hI ht).mp hPt
        refine (meets_cons ht).mpr
          ⟨hok, ih (hinv s a t hI hok ht) hPt hrest fun pre v hpre hv => ?_⟩
        exact hall (a :: pre) v (List.cons_prefix_cons.mpr ⟨rfl, hpre⟩)
          (run_cons_eq_some.mpr ⟨t, ht, hv⟩)
  · rintro hmeets pre v ⟨post, rfl⟩ hv
    have hboth := run_invariant_of_meets (P := fun t => I t ∧ P t)
      (fun s a t hs hok ht => ⟨hinv s a t hs.1 hok ht, (hstep s a t hs.1 ht).mpr hok⟩) ⟨hI, hs⟩
      ((meets_append hv).mp hmeets).1 hv
    exact hboth.2

/-- Where `P` survives exactly the steps that `ok` allows, it holds all along a run just when every
step is allowed. -/
theorem forall_prefix_iff_meets {P : σ → Prop}
    (hstep : ∀ s a t, P s → step s a = some t → (P t ↔ ok s a))
    {s u : σ} {as : List α} (hs : P s) (h : run step s as = some u) :
    (∀ pre t, pre <+: as → run step s pre = some t → P t) ↔ Meets step ok s as :=
  forall_prefix_iff_meets_of_invariant (fun s a t hP hok ht => (hstep s a t hP ht).mpr hok) hstep
    hs hs h

theorem forall_prefix_iff_meets_beside {I P : σ → Prop}
    (hinv : ∀ s a t, I s → step s a = some t → I t)
    (hstep : ∀ s a t, I s → P s → step s a = some t → (P t ↔ ok s a))
    {s u : σ} {as : List α} (hI : I s) (hs : P s) (h : run step s as = some u) :
    (∀ pre t, pre <+: as → run step s pre = some t → P t) ↔ Meets step ok s as := by
  have hiff := forall_prefix_iff_meets (P := fun s => I s ∧ P s)
    (fun s a t hP ht => by
      rw [and_iff_right (hinv s a t hP.1 ht)]
      exact hstep s a t hP.1 hP.2 ht) ⟨hI, hs⟩ h
  rw [← hiff]
  constructor
  · intro hall pre t hpre ht
    exact ⟨run_invariant hinv hI ht, hall pre t hpre ht⟩
  · intro hall pre t hpre ht
    exact (hall pre t hpre ht).2

theorem run_back {I P : σ → Prop} (hinv : ∀ s a t, I s → step s a = some t → I t)
    (hback : ∀ s a t, I s → step s a = some t → P t → P s)
    {s u : σ} {as : List α} (hI : I s) (h : run step s as = some u) (hu : P u) : P s := by
  induction as generalizing s with
  | nil =>
      cases h
      exact hu
  | cons a as ih =>
      obtain ⟨t, ht, hrest⟩ := run_cons_eq_some.mp h
      exact hback s a t hI ht (ih (hinv s a t hI ht) hrest)

/-- Where `P` survives exactly the steps that `ok` allows and never comes back, it holds at the end
of a run just when every step was allowed. -/
theorem final_iff_meets {I P : σ → Prop} (hinv : ∀ s a t, I s → step s a = some t → I t)
    (hstep : ∀ s a t, I s → P s → step s a = some t → (P t ↔ ok s a))
    (hback : ∀ s a t, I s → step s a = some t → P t → P s)
    {s u : σ} {as : List α} (hI : I s) (hs : P s) (h : run step s as = some u) :
    P u ↔ Meets step ok s as := by
  rw [← forall_prefix_iff_meets_beside hinv hstep hI hs h]
  constructor
  · rintro hu pre t ⟨post, rfl⟩ ht
    obtain ⟨t', ht', hpost⟩ := run_append_eq_some.mp h
    rw [ht, Option.some.injEq] at ht'
    subst ht'
    exact run_back hinv hback (run_invariant hinv hI ht) hpost hu
  · intro hall
    exact hall as u (List.prefix_refl as) h

/-! ## Components -/

/-- A run seen from one component: the events that do not concern it drop out,
and the others act on its view alone. -/
theorem run_filter {view : σ → τ} {concerns : α → Bool} {vstep : τ → α → Option τ}
    (hother : ∀ s a t, concerns a = false → step s a = some t → view t = view s)
    (hown : ∀ s a t, concerns a = true → step s a = some t → vstep (view s) a = some (view t))
    {s t : σ} {as : List α} (h : run step s as = some t) :
    run vstep (view s) (as.filter concerns) = some (view t) := by
  induction as generalizing s with
  | nil =>
      cases h
      rfl
  | cons a as ih =>
      obtain ⟨u, hu, hrest⟩ := run_cons_eq_some.mp h
      cases hc : concerns a with
      | false =>
          rw [List.filter_cons_of_neg (by simp [hc]), ← hother s a u hc hu]
          exact ih hrest
      | true =>
          rw [List.filter_cons_of_pos hc]
          exact run_cons_eq_some.mpr ⟨view u, hown s a u hc hu, ih hrest⟩

/-! ## Two runs -/

/-- Two runs side by side, the second without the hidden events: wherever both take an event, `ok`
allows it. -/
def MeetsErased (step : σ → α → Option σ) (hidden : α → Bool) (ok : σ → σ → α → Prop) :
    σ → σ → List α → Prop
  | _, _, [] => True
  | s, t, a :: as =>
    if hidden a then ∀ s', step s a = some s' → MeetsErased step hidden ok s' t as
    else ok s t a ∧ ∀ s' t', step s a = some s' → step t a = some t' →
      MeetsErased step hidden ok s' t' as

section Erased

variable {hidden : α → Bool} {ok : σ → σ → α → Prop}

theorem meetsErased_hidden {s s' t : σ} {a : α} {as : List α} (ha : hidden a = true)
    (h : step s a = some s') :
    MeetsErased step hidden ok s t (a :: as) ↔ MeetsErased step hidden ok s' t as := by
  rw [MeetsErased, if_pos ha]
  constructor
  · exact fun hmeets => hmeets s' h
  · intro hmeets u hu
    rw [h, Option.some.injEq] at hu
    exact hu ▸ hmeets

theorem meetsErased_cons {s s' t t' : σ} {a : α} {as : List α} (ha : hidden a = false)
    (h : step s a = some s') (h' : step t a = some t') :
    MeetsErased step hidden ok s t (a :: as) ↔
      ok s t a ∧ MeetsErased step hidden ok s' t' as := by
  rw [MeetsErased, if_neg (by simp [ha])]
  refine and_congr_right fun _ => ⟨fun hmeets => hmeets s' t' h h', fun hmeets u u' hu hu' => ?_⟩
  rw [h, Option.some.injEq] at hu
  rw [h', Option.some.injEq] at hu'
  exact hu ▸ hu' ▸ hmeets

/-- Two runs, one without the hidden events: they stay related where a hidden
event keeps its side related and the other side follows every other event that
is allowed. -/
theorem run_erase {R : σ → σ → Prop} {fits : α → Prop}
    (hhidden : ∀ s a s' t, hidden a = true → R s t → step s a = some s' → R s' t)
    (hfollow : ∀ s a s' t, hidden a = false → fits a → ok s t a → R s t → step s a = some s' →
      ∃ t', step t a = some t' ∧ R s' t')
    {s s' t : σ} {as : List α} (hfits : ∀ a ∈ as, fits a)
    (hok : MeetsErased step hidden ok s t as) (hR : R s t) (h : run step s as = some s') :
    ∃ t', run step t (as.filter fun a => !hidden a) = some t' ∧ R s' t' := by
  induction as generalizing s t with
  | nil =>
      cases h
      exact ⟨t, rfl, hR⟩
  | cons a as ih =>
      obtain ⟨u, hu, hrest⟩ := run_cons_eq_some.mp h
      have hlater : ∀ b ∈ as, fits b := fun b hb => hfits b (List.mem_cons_of_mem a hb)
      cases ha : hidden a with
      | true =>
          rw [List.filter_cons_of_neg (by simp [ha])]
          exact ih hlater ((meetsErased_hidden ha hu).mp hok) (hhidden s a u t ha hR hu) hrest
      | false =>
          have hhere : ok s t a := by
            rw [MeetsErased, if_neg (by simp [ha])] at hok
            exact hok.1
          obtain ⟨w, hw, hRw⟩ := hfollow s a u t ha (hfits a List.mem_cons_self) hhere hR hu
          obtain ⟨t', ht', hR'⟩ := ih hlater ((meetsErased_cons ha hu hw).mp hok).2 hRw hrest
          rw [List.filter_cons_of_pos (by simp [ha])]
          exact ⟨t', run_cons_eq_some.mpr ⟨w, hw, ht'⟩, hR'⟩

/-- Whether two runs side by side meet a condition can be computed. -/
instance decidableMeetsErased [∀ s t a, Decidable (ok s t a)] :
    ∀ (s t : σ) (as : List α), Decidable (MeetsErased step hidden ok s t as)
  | _, _, [] => isTrue trivial
  | s, t, a :: as =>
    match ha : hidden a, hs : step s a, ht : step t a with
    | true, some s', _ =>
      have := decidableMeetsErased s' t as
      decidable_of_iff _ (meetsErased_hidden ha hs).symm
    | false, some s', some t' =>
      have := decidableMeetsErased s' t' as
      decidable_of_iff (ok s t a ∧ MeetsErased step hidden ok s' t' as)
        (meetsErased_cons ha hs ht).symm
    | true, none, _ =>
      isTrue (by
        rw [MeetsErased, if_pos ha]
        exact fun s' h => absurd (hs.symm.trans h) (Option.some_ne_none s').symm)
    | false, none, _ =>
      decidable_of_iff (ok s t a) (by
        rw [MeetsErased, if_neg (by simp [ha])]
        exact ⟨fun hok => ⟨hok, fun s' _ h => absurd (hs.symm.trans h)
          (Option.some_ne_none s').symm⟩, And.left⟩)
    | false, some s', none =>
      decidable_of_iff (ok s t a) (by
        rw [MeetsErased, if_neg (by simp [ha])]
        exact ⟨fun hok => ⟨hok, fun _ t' _ h => absurd (ht.symm.trans h)
          (Option.some_ne_none t').symm⟩, And.left⟩)

end Erased

end CollabIDE.Lib.Machine
