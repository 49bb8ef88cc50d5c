import CollabIDE.Runner.Reaper
/-!
# What the sweeps remove

No sweep removes what is not ours or may still be a run, whatever happens
between its commands; and a sweep none of whose commands fails leaves nothing of
what was stale when it was called.  Both assume that what docker prints of a
container finds no other.
-/

namespace CollabIDE.Runner.Reaper

open CollabIDE.Lib.Machine

variable {getTime : Text → Option Int} {maxAgeMs now now' : Int} {s t : State getTime}
  {made made' : List (Container getTime)} {stage : Stage} {e : Event getTime} {k : Nat}
  {events : List (Event getTime)}

/-! ## Only what is stale -/

/-- What docker prints of the other container, its id in full or the start of it, does not find
this one. -/
def Container.Apart (c other : Container getTime) : Prop :=
  c.answersTo other.shortId = false ∧ c.answersTo other.id = false

instance (c other : Container getTime) : Decidable (c.Apart other) :=
  inferInstanceAs (Decidable (_ ∧ _))

/-- The assumption on the ids and names that containers get. -/
def NamedApart (s : State getTime) : Event getTime → Prop
  | .create c => ∀ other ∈ s.made, c.Apart other ∧ other.Apart c
  | _ => True

instance (s : State getTime) : ∀ e, Decidable (NamedApart s e)
  | .create c => inferInstanceAs (Decidable (∀ other ∈ s.made, c.Apart other ∧ other.Apart c))
  | .tick _ | .remove _ | .sweep | .docker _ | .selects _ | .fails _ => isTrue trivial

/-- A container of ours that was old enough by now. -/
def Stale (maxAgeMs now : Int) (c : Container getTime) : Prop :=
  labelled c = true ∧ c.createdMs + maxAgeMs ≤ now

/-- What a sweep has read is about containers there were, and what it removes is stale. -/
def Stage.Sound (maxAgeMs now : Int) (made : List (Container getTime)) : Stage → Prop
  | .inspecting ids => ∀ id ∈ ids, ∃ c ∈ made, c.shortId = id ∧ labelled c = true
  | .inspected stdout => ∃ found, stdout = inspectText found ∧
      ∀ c ∈ found, c ∈ made ∧ labelled c = true
  | .removing _ rest => ∀ id ∈ rest, ∃ c ∈ made, c.id = id ∧ Stale maxAgeMs now c
  | .listing | .returned _ => True

structure Inv (maxAgeMs : Int) (s : State getTime) : Prop where
  ids : (s.made.map Container.id).Nodup
  sublist : s.containers.Sublist s.made
  apart : ∀ a ∈ s.made, ∀ b ∈ s.made, b.answersTo a.shortId = true ∨ b.answersTo a.id = true →
    b = a
  sweeps : ∀ stage ∈ s.sweeps, stage.Sound maxAgeMs s.now s.made
  reaped : ∀ entry ∈ s.reaped, Stale maxAgeMs entry.2 entry.1

theorem Inv.init : Inv maxAgeMs (State.init getTime now) :=
  ⟨List.nodup_nil, List.Sublist.refl _, fun _ h => absurd h List.not_mem_nil,
    fun _ h => absurd h List.not_mem_nil, fun _ h => absurd h List.not_mem_nil⟩

theorem Inv.subset (h : Inv maxAgeMs s) : s.containers ⊆ s.made := h.sublist.subset

/-- What a text that was printed of a container finds is that container. -/
theorem Inv.eq_of_lookUp (h : Inv maxAgeMs s) {a b : Container getTime} {reference : Text}
    (ha : a ∈ s.made) (hprinted : reference = a.shortId ∨ reference = a.id)
    (hfound : lookUp s.containers reference = some b) : b = a := by
  obtain ⟨hmem, hanswers⟩ := lookUp_eq_some hfound
  refine h.apart a ha b (h.subset hmem) ?_
  rcases hprinted with rfl | rfl
  · exact .inl hanswers
  · exact .inr hanswers

theorem Inv.apart_create (h : Inv maxAgeMs s) {c : Container getTime}
    (happart : ∀ other ∈ s.made, c.Apart other ∧ other.Apart c) :
    ∀ a ∈ s.made ++ [c], ∀ b ∈ s.made ++ [c],
      b.answersTo a.shortId = true ∨ b.answersTo a.id = true → b = a := by
  have hnot : ∀ {x y : Container getTime}, x.Apart y →
      ¬ (x.answersTo y.shortId = true ∨ x.answersTo y.id = true) := by
    rintro x y ⟨hshort, hfull⟩ (hanswers | hanswers)
    · rw [hshort] at hanswers
      cases hanswers
    · rw [hfull] at hanswers
      cases hanswers
  intro a ha b hb hanswers
  rcases List.mem_append.mp ha with holdA | hnewA <;>
    rcases List.mem_append.mp hb with holdB | hnewB
  · exact h.apart a holdA b holdB hanswers
  · obtain rfl := List.mem_singleton.mp hnewB
    exact absurd hanswers (hnot (happart a holdA).1)
  · obtain rfl := List.mem_singleton.mp hnewA
    exact absurd hanswers (hnot (happart b holdB).2)
  · rw [List.mem_singleton.mp hnewA, List.mem_singleton.mp hnewB]

theorem Stale.mono {c : Container getTime} (h : Stale maxAgeMs now c) (hle : now ≤ now') :
    Stale maxAgeMs now' c := ⟨h.1, Int.le_trans h.2 hle⟩

theorem Stage.Sound.mono (h : stage.Sound maxAgeMs now made) (hmade : made ⊆ made')
    (hle : now ≤ now') : stage.Sound maxAgeMs now' made' := by
  cases stage with
  | listing | returned _ => trivial
  | inspecting ids =>
      intro id hid
      obtain ⟨c, hc, hrest⟩ := h id hid
      exact ⟨c, hmade hc, hrest⟩
  | inspected stdout =>
      obtain ⟨found, heq, hfound⟩ := h
      exact ⟨found, heq, fun c hc => ⟨hmade (hfound c hc).1, (hfound c hc).2⟩⟩
  | removing count rest =>
      intro id hid
      obtain ⟨c, hc, hcid, hstale⟩ := h id hid
      exact ⟨c, hmade hc, hcid, hstale.mono hle⟩

theorem Inv.set (h : Inv maxAgeMs s) (hstage : stage.Sound maxAgeMs s.now s.made) :
    Inv maxAgeMs { s with sweeps := s.sweeps.set k stage } := by
  refine ⟨h.ids, h.sublist, h.apart, fun other hother => ?_, h.reaped⟩
  rcases List.mem_or_eq_of_mem_set hother with hold | rfl
  · exact h.sweeps other hold
  · exact hstage

theorem Inv.docker (h : Inv maxAgeMs s) (hstage : s.sweeps[k]? = some stage)
    (hstep : docker s k stage = some t) : Inv maxAgeMs t := by
  have hsound := h.sweeps stage (List.mem_of_getElem? hstage)
  cases stage with
  | inspected stdout | returned n => cases hstep
  | listing =>
      obtain rfl := Option.some.inj hstep
      refine h.set ?_
      split
      · trivial
      · intro id hid
        rw [listedIds_psText] at hid
        obtain ⟨c, hc, rfl⟩ := List.mem_map.mp hid
        exact ⟨c, h.subset (List.mem_filter.mp hc).1, rfl, (List.mem_filter.mp hc).2⟩
  | inspecting ids =>
      obtain rfl := Option.some.inj hstep
      refine h.set ?_
      split
      · refine ⟨_, rfl, fun c hc => ?_⟩
        obtain ⟨id, hid, hlook⟩ := List.mem_filterMap.mp hc
        obtain ⟨c', hc', heq, hlabel⟩ := hsound id hid
        obtain rfl := h.eq_of_lookUp hc' (.inl heq.symm) hlook
        exact ⟨hc', hlabel⟩
      · trivial
  | removing count rest =>
      cases rest with
      | nil =>
          obtain rfl := Option.some.inj hstep
          exact h.set trivial
      | cons id rest =>
          have hrest : (Stage.removing count rest).Sound maxAgeMs s.now s.made :=
            fun other hother => hsound other (List.mem_cons_of_mem _ hother)
          have hset : Inv maxAgeMs { s with sweeps := s.sweeps.set k (.removing count rest) } :=
            h.set hrest
          rw [Reaper.docker] at hstep
          split at hstep
          · next found hfound =>
            obtain rfl := Option.some.inj hstep
            refine ⟨h.ids, List.filter_sublist.trans h.sublist, h.apart, hset.sweeps, ?_⟩
            intro entry hentry
            rcases List.mem_append.mp hentry with hold | hnew
            · exact h.reaped entry hold
            · obtain rfl := List.mem_singleton.mp hnew
              obtain ⟨c, hc, heq, hstale⟩ := hsound id List.mem_cons_self
              obtain rfl := h.eq_of_lookUp hc (.inr heq.symm) hfound
              exact hstale
          · obtain rfl := Option.some.inj hstep
            exact hset

/-- A docker command that exits with an error ends its sweep and changes nothing else. -/
theorem step_fails {k : Nat} (hstep : step maxAgeMs s (.fails k) = some t) :
    t = { s with sweeps := s.sweeps.set k (.returned 0) } := by
  rw [Reaper.step] at hstep
  split at hstep
  · exact (Option.some.inj hstep).symm
  · exact (Option.some.inj hstep).symm
  · exact (Option.some.inj hstep).symm
  · cases hstep

theorem Inv.step (h : Inv maxAgeMs s) (happart : NamedApart s e)
    (hstep : step maxAgeMs s e = some t) : Inv maxAgeMs t := by
  cases e with
  | tick ms =>
      obtain rfl := Option.some.inj hstep
      have hle : s.now ≤ s.now + ms := by omega
      exact ⟨h.ids, h.sublist, h.apart,
        fun stage hs => (h.sweeps stage hs).mono (List.Subset.refl _) hle, h.reaped⟩
  | create c =>
      rw [Reaper.step, Option.ite_none_right_eq_some] at hstep
      obtain ⟨⟨hnew, -⟩, hsome⟩ := hstep
      obtain rfl := Option.some.inj hsome
      refine ⟨?_, h.sublist.append_right _, h.apart_create happart, fun stage hs =>
        (h.sweeps stage hs).mono (List.subset_append_left _ _) (Int.le_refl _), h.reaped⟩
      rw [List.map_append]
      exact h.ids.append (List.nodup_singleton _) (by simpa using hnew)
  | remove id =>
      obtain rfl := Option.some.inj hstep
      exact ⟨h.ids, List.filter_sublist.trans h.sublist, h.apart, h.sweeps, h.reaped⟩
  | sweep =>
      obtain rfl := Option.some.inj hstep
      refine ⟨h.ids, h.sublist, h.apart, fun stage hs => ?_, h.reaped⟩
      rcases List.mem_append.mp hs with hold | hnew
      · exact h.sweeps stage hold
      · obtain rfl := List.mem_singleton.mp hnew
        trivial
  | docker k =>
      obtain ⟨stage, hstage, hdocker⟩ := Option.bind_eq_some_iff.mp hstep
      exact h.docker hstage hdocker
  | selects k =>
      rw [Reaper.step] at hstep
      split at hstep
      · next stdout hstage =>
        obtain rfl := Option.some.inj hstep
        obtain ⟨found, rfl, hfound⟩ := h.sweeps _ (List.mem_of_getElem? hstage)
        refine h.set ?_
        split
        · trivial
        · intro id hid
          rw [staleIds_inspectText] at hid
          obtain ⟨c, hc, rfl⟩ := List.mem_map.mp hid
          obtain ⟨hmem, hold⟩ := List.mem_filter.mp hc
          have hage := of_decide_eq_true hold
          exact ⟨c, (hfound c hmem).1, rfl, (hfound c hmem).2, by omega⟩
      · cases hstep
  | fails k =>
      obtain rfl := step_fails hstep
      exact h.set trivial

/-- Whatever else happens to the daemon, and however many sweeps are under way: what the reaper
removes carries the label of a run and is at least the maximum age old. -/
theorem reaped_of_run
    (happart : Meets (step maxAgeMs) NamedApart (State.init getTime now) events)
    (h : run (step maxAgeMs) (State.init getTime now) events = some s) :
    ∀ c removedAt, (c, removedAt) ∈ s.reaped →
      RUN_LABEL ∈ c.labels ∧ c.createdMs + maxAgeMs ≤ removedAt := by
  intro c removedAt hmem
  have hinv := run_invariant_of_meets (fun _ _ _ hs hok hstep => Inv.step hs hok hstep) Inv.init
    happart h
  obtain ⟨hlabel, hage⟩ := hinv.reaped _ hmem
  exact ⟨List.contains_iff_mem.mp hlabel, hage⟩

/-! ## All that is stale -/

/-- Whether `docker inspect` would find what a sweep asks for. -/
def inspectable (s : State getTime) (k : Nat) : Bool :=
  match s.sweeps[k]? with
  | some (.inspecting ids) => ids.all fun id => (lookUp s.containers id).isSome
  | _ => true

/-- The docker commands of a sweep do not fail: none exits with an error of its own, and what was
listed is still there when it is inspected. -/
def Undisturbed (k : Nat) (s : State getTime) : Event getTime → Prop
  | .fails j => j ≠ k
  | .docker j => j = k → inspectable s k = true
  | _ => True

instance (k : Nat) (s : State getTime) : ∀ e, Decidable (Undisturbed k s e)
  | .fails j => inferInstanceAs (Decidable (j ≠ k))
  | .docker j => inferInstanceAs (Decidable (j = k → inspectable s k = true))
  | .tick _ | .create _ | .remove _ | .sweep | .selects _ => isTrue trivial

/-- A stale container is still ahead of the sweep. -/
def Ahead (c : Container getTime) : Stage → Prop
  | .listing => True
  | .inspecting ids => c.shortId ∈ ids
  | .inspected stdout => ∃ found, stdout = inspectText found ∧ c ∈ found
  | .removing _ rest => c.id ∈ rest
  | .returned _ => False

/-- A sweep, and what was stale when it was called. -/
structure Sweeping (maxAgeMs calledAt : Int) (old : List (Container getTime)) (k : Nat)
    (s : State getTime) : Prop where
  inv : Inv maxAgeMs s
  later : calledAt ≤ s.now
  made : ∀ c ∈ old, c ∈ s.made
  stage : ∃ stage, s.sweeps[k]? = some stage ∧
    ∀ c ∈ old, c ∈ s.containers → Stale maxAgeMs calledAt c → Ahead c stage

variable {calledAt : Int} {old : List (Container getTime)}

theorem lookUp_of_mem (h : Inv maxAgeMs s) {c : Container getTime} {reference : Text}
    (hc : c ∈ s.containers) (hprinted : reference = c.shortId ∨ reference = c.id) :
    lookUp s.containers reference = some c := by
  refine lookUp_of_only (h.ids.sublist (h.sublist.map _)) hc ?_ fun other hother hanswers => ?_
  · rw [List.isPrefixOf_iff_prefix]
    rcases hprinted with rfl | rfl
    · exact List.take_prefix _ _
    · exact List.prefix_refl _
  · rw [h.apart c (h.subset hc) other (h.subset hother) ?_]
    rcases hprinted with rfl | rfl
    · exact .inl hanswers
    · exact .inr hanswers

theorem getElem?_replaced {l : List Stage} {before : Stage} (h : l[k]? = some before)
    (after : Stage) : (l.set k after)[k]? = some after := by
  rw [List.getElem?_set_self (List.getElem?_eq_some_iff.mp h).1]

theorem ahead_docker (h : Inv maxAgeMs s) (hstage : s.sweeps[k]? = some stage)
    (hahead : ∀ c ∈ old, c ∈ s.containers → Stale maxAgeMs calledAt c → Ahead c stage)
    (hfine : ∀ ids, stage = .inspecting ids → ∀ id ∈ ids, (lookUp s.containers id).isSome)
    (hstep : docker s k stage = some t) :
    t.now = s.now ∧ t.made = s.made ∧ ∃ stage', t.sweeps[k]? = some stage' ∧
      ∀ c ∈ old, c ∈ t.containers → Stale maxAgeMs calledAt c → Ahead c stage' := by
  cases stage with
  | inspected stdout | returned n => cases hstep
  | listing =>
      obtain rfl := Option.some.inj hstep
      refine ⟨rfl, rfl, _, getElem?_replaced hstage _, fun c hc hthere hstale => ?_⟩
      have hlisted : c.shortId ∈ listedIds (psText (s.containers.filter labelled)) := by
        rw [listedIds_psText]
        exact List.mem_map_of_mem (List.mem_filter.mpr ⟨hthere, hstale.1⟩)
      rw [if_neg (List.ne_nil_of_mem hlisted)]
      exact hlisted
  | inspecting ids =>
      obtain rfl := Option.some.inj hstep
      refine ⟨rfl, rfl, _, getElem?_replaced hstage _, fun c hc hthere hstale => ?_⟩
      rw [if_pos (List.filterMap_length_eq_length.mpr (hfine ids rfl))]
      refine ⟨_, rfl, List.mem_filterMap.mpr ⟨c.shortId, hahead c hc hthere hstale, ?_⟩⟩
      exact lookUp_of_mem h hthere (.inl rfl)
  | removing count rest =>
      cases rest with
      | nil =>
          obtain rfl := Option.some.inj hstep
          refine ⟨rfl, rfl, _, getElem?_replaced hstage _, fun c hc hthere hstale => ?_⟩
          exact absurd (hahead c hc hthere hstale) List.not_mem_nil
      | cons id rest =>
          rw [docker] at hstep
          split at hstep
          · next found hfound =>
            obtain rfl := Option.some.inj hstep
            refine ⟨rfl, rfl, _, getElem?_replaced hstage _, fun c hc hthere hstale => ?_⟩
            obtain ⟨hbefore, hne⟩ := List.mem_filter.mp hthere
            refine (List.mem_cons.mp (hahead c hc hbefore hstale)).resolve_left fun heq => ?_
            rw [lookUp_of_mem h hbefore (.inr heq.symm), Option.some.injEq] at hfound
            exact absurd (congrArg Container.id hfound) (of_decide_eq_true hne)
          · next hfound =>
            obtain rfl := Option.some.inj hstep
            refine ⟨rfl, rfl, _, getElem?_replaced hstage _, fun c hc hthere hstale => ?_⟩
            refine (List.mem_cons.mp (hahead c hc hthere hstale)).resolve_left fun heq => ?_
            rw [lookUp_of_mem h hthere (.inr heq.symm)] at hfound
            cases hfound

theorem docker_frame (h : docker s k stage = some t) :
    (∃ after, t.sweeps = s.sweeps.set k after) ∧ t.containers ⊆ s.containers ∧
      t.now = s.now ∧ t.made = s.made := by
  cases stage with
  | inspected stdout | returned n => cases h
  | listing | inspecting ids =>
      obtain rfl := Option.some.inj h
      exact ⟨⟨_, rfl⟩, List.Subset.refl _, rfl, rfl⟩
  | removing count rest =>
      cases rest with
      | nil =>
          obtain rfl := Option.some.inj h
          exact ⟨⟨_, rfl⟩, List.Subset.refl _, rfl, rfl⟩
      | cons id rest =>
          rw [docker] at h
          split at h
          · obtain rfl := Option.some.inj h
            exact ⟨⟨_, rfl⟩, List.filter_sublist.subset, rfl, rfl⟩
          · obtain rfl := Option.some.inj h
            exact ⟨⟨_, rfl⟩, List.Subset.refl _, rfl, rfl⟩

theorem Sweeping.others (h : Sweeping maxAgeMs calledAt old k s) (hinv : Inv maxAgeMs t)
    (hnow : s.now ≤ t.now) (hmade : s.made ⊆ t.made) (hstage : t.sweeps[k]? = s.sweeps[k]?)
    (hback : ∀ c ∈ s.made, c ∈ t.containers → c ∈ s.containers) :
    Sweeping maxAgeMs calledAt old k t := by
  obtain ⟨stage, hat, hahead⟩ := h.stage
  refine ⟨hinv, Int.le_trans h.later hnow, fun c hc => hmade (h.made c hc), stage,
    hstage.trans hat, fun c hc hthere hstale => ?_⟩
  exact hahead c hc (hback c (h.made c hc) hthere) hstale

theorem Sweeping.step (h : Sweeping maxAgeMs calledAt old k s) (happart : NamedApart s e)
    (hfine : Undisturbed k s e) (hstep : step maxAgeMs s e = some t) :
    Sweeping maxAgeMs calledAt old k t := by
  have hinv := h.inv.step happart hstep
  obtain ⟨stage, hat, hahead⟩ := h.stage
  cases e with
  | tick ms =>
      obtain rfl := Option.some.inj hstep
      exact h.others hinv (show s.now ≤ s.now + ms by omega) (List.Subset.refl _) rfl
        fun _ _ hthere => hthere
  | create c =>
      rw [Reaper.step, Option.ite_none_right_eq_some] at hstep
      obtain ⟨⟨hnew, -⟩, hsome⟩ := hstep
      obtain rfl := Option.some.inj hsome
      refine h.others hinv (Int.le_refl _) (List.subset_append_left _ _) rfl
        fun other hmade hthere => ?_
      rcases List.mem_append.mp hthere with hold | hlast
      · exact hold
      · obtain rfl := List.mem_singleton.mp hlast
        exact absurd (List.mem_map_of_mem hmade) hnew
  | remove id =>
      obtain rfl := Option.some.inj hstep
      exact h.others hinv (Int.le_refl _) (List.Subset.refl _) rfl
        fun _ _ hthere => (List.mem_filter.mp hthere).1
  | sweep =>
      obtain rfl := Option.some.inj hstep
      refine h.others hinv (Int.le_refl _) (List.Subset.refl _) ?_ fun _ _ hthere => hthere
      exact List.getElem?_append_left (List.getElem?_eq_some_iff.mp hat).1
  | docker j =>
      obtain ⟨before, hbefore, hdocker⟩ := Option.bind_eq_some_iff.mp hstep
      by_cases hjk : j = k
      · subst hjk
        obtain rfl := Option.some.inj (hbefore.symm.trans hat)
        have hids : ∀ ids, before = .inspecting ids → ∀ id ∈ ids,
            (lookUp s.containers id).isSome := by
          rintro ids rfl
          have hall := hfine rfl
          rw [inspectable, hbefore] at hall
          exact List.all_eq_true.mp hall
        obtain ⟨hnow, hmade, hstage⟩ := ahead_docker h.inv hbefore hahead hids hdocker
        exact ⟨hinv, hnow ▸ h.later, fun c hc => hmade ▸ h.made c hc, hstage⟩
      · obtain ⟨⟨after, hsweeps⟩, hcontainers, hnow, hmade⟩ := docker_frame hdocker
        refine h.others hinv (Int.le_of_eq hnow.symm) (hmade ▸ List.Subset.refl _) ?_
          fun _ _ hthere => hcontainers hthere
        rw [hsweeps, List.getElem?_set_ne hjk]
  | selects j =>
      rw [Reaper.step] at hstep
      split at hstep
      · next stdout hbefore =>
        obtain rfl := Option.some.inj hstep
        by_cases hjk : j = k
        · subst hjk
          obtain rfl := Option.some.inj (hbefore.symm.trans hat)
          refine ⟨hinv, h.later, h.made, _, getElem?_replaced hbefore _,
            fun c hc hthere hstale => ?_⟩
          obtain ⟨found, rfl, hmem⟩ := hahead c hc hthere hstale
          have hselected : c.id ∈ staleIds getTime (inspectText found) (s.now - maxAgeMs) := by
            rw [staleIds_inspectText]
            refine List.mem_map_of_mem (List.mem_filter.mpr ⟨hmem, decide_eq_true ?_⟩)
            have hage := hstale.2
            have hlater := h.later
            omega
          rw [if_neg (List.ne_nil_of_mem hselected)]
          exact hselected
        · exact h.others hinv (Int.le_refl _) (List.Subset.refl _) (List.getElem?_set_ne hjk)
            fun _ _ hthere => hthere
      · cases hstep
  | fails j =>
      obtain rfl := step_fails hstep
      exact h.others hinv (Int.le_refl _) (List.Subset.refl _) (List.getElem?_set_ne hfine)
        fun _ _ hthere => hthere

/-- A sweep that returns, and whose docker commands did not fail, has left nothing that was stale
when it was called, whatever else happened meanwhile. -/
theorem cleared_of_sweep {called : State getTime} {before : List (Event getTime)} {removed : Nat}
    (happart : Meets (step maxAgeMs) NamedApart (State.init getTime now)
      (before ++ .sweep :: events))
    (hbefore : run (step maxAgeMs) (State.init getTime now) before = some called)
    (hfine : Meets (step maxAgeMs) (Undisturbed called.sweeps.length) called (.sweep :: events))
    (h : run (step maxAgeMs) called (.sweep :: events) = some s)
    (hreturned : s.sweeps[called.sweeps.length]? = some (.returned removed)) :
    ∀ c ∈ called.containers, labelled c = true → c ∈ s.containers →
      called.now < c.createdMs + maxAgeMs := by
  intro c hc hlabel hthere
  obtain ⟨hapartBefore, hapartAfter⟩ := (meets_append hbefore).mp happart
  have hinv := run_invariant_of_meets (fun _ _ _ hs hok hstep => Inv.step hs hok hstep) Inv.init
    hapartBefore hbefore
  obtain ⟨started, hstarted, hrun⟩ := run_cons_eq_some.mp h
  have hmeets := ((meets_cons hstarted).mp (hapartAfter.and hfine)).2
  have hfirst : Sweeping maxAgeMs called.now called.containers called.sweeps.length started := by
    obtain rfl := Option.some.inj hstarted
    refine ⟨hinv.step (e := .sweep) trivial hstarted, Int.le_refl _, hinv.subset, .listing, ?_,
      fun _ _ _ _ => trivial⟩
    exact List.getElem?_concat_length
  have hend := run_invariant_of_meets
    (fun _ _ _ hs hok hstep => Sweeping.step hs hok.1 hok.2 hstep) hfirst hmeets hrun
  obtain ⟨stage, hat, hahead⟩ := hend.stage
  obtain rfl := Option.some.inj (hreturned.symm.trans hat)
  by_contra hold
  exact hahead c hc hthere ⟨hlabel, by omega⟩

/-! ## A sweep -/

/-- A clock that reads one text. -/
def dates (text : Text) : Option Int :=
  if text = "1970-01-01T00:00:00Z".toList then some 0 else none

def left : Container dates where
  id := "a1b2c3d4e5f60718".toList
  name := "quirky_hopper".toList
  labels := ["ce.run"]
  created := "1970-01-01T00:00:00Z".toList
  createdMs := 0
  plainId := by decide
  plainCreated := by decide
  getTime_created := by decide

def database : Container dates where
  id := "0718a1b2c3d4e5f6".toList
  name := "db-1".toList
  labels := []
  created := "1970-01-01T00:00:00Z".toList
  createdMs := 0
  plainId := by decide
  plainCreated := by decide
  getTime_created := by decide

/-- A container of ours is left behind beside another one. -/
def starts : List (Event dates) := [.create database, .create left, .tick 60000]

/-- A sweep that comes a minute later. -/
def sweepLater : List (Event dates) :=
  [.sweep, .docker 0, .docker 0, .selects 0, .docker 0, .docker 0]

theorem sweepLater_run : ∃ s,
    run (step DEFAULT_MAX_AGE_MS) (State.init dates 0) (starts ++ sweepLater) = some s ∧
      s.reaped.map (fun entry => (entry.1.id, entry.2)) = [(left.id, 60000)] := by
  have hreaped : (run (step DEFAULT_MAX_AGE_MS) (State.init dates 0) (starts ++ sweepLater)).map
      (fun s => s.reaped.map fun entry => (entry.1.id, entry.2)) =
      some [(left.id, 60000)] := by decide +kernel
  exact Option.map_eq_some_iff.mp hreaped

theorem sweepLater_namedApart :
    Meets (step DEFAULT_MAX_AGE_MS) NamedApart (State.init dates 0) (starts ++ sweepLater) := by
  decide +kernel

theorem reaped_of_run_left : ∃ s,
    run (step DEFAULT_MAX_AGE_MS) (State.init dates 0) (starts ++ sweepLater) = some s ∧
      ∃ c, (c, 60000) ∈ s.reaped ∧ RUN_LABEL ∈ c.labels ∧ c.createdMs + 60000 ≤ 60000 := by
  obtain ⟨s, h, hreaped⟩ := sweepLater_run
  obtain ⟨⟨c, removedAt⟩, hmem, heq⟩ : ∃ entry ∈ s.reaped, (entry.1.id, entry.2) =
      (left.id, 60000) := List.mem_map.mp (hreaped ▸ List.mem_cons_self)
  obtain rfl : removedAt = 60000 := (Prod.mk.inj heq).2
  exact ⟨s, h, c, hmem, reaped_of_run sweepLater_namedApart h c 60000 hmem⟩

/-- The containers are a minute old. -/
def leftAlone : State dates := ⟨[database, left], [database, left], 60000, [], []⟩

theorem cleared_of_sweep_left : ∃ s,
    run (step DEFAULT_MAX_AGE_MS) leftAlone sweepLater = some s ∧ left ∉ s.containers := by
  have hreturned : (run (step DEFAULT_MAX_AGE_MS) leftAlone sweepLater).map State.sweeps =
      some [.returned 1] := by decide +kernel
  obtain ⟨s, h, hsweeps⟩ := Option.map_eq_some_iff.mp hreturned
  have hbefore : run (step DEFAULT_MAX_AGE_MS) (State.init dates 0) starts = some leftAlone := rfl
  have hfine : Meets (step DEFAULT_MAX_AGE_MS) (Undisturbed 0) leftAlone sweepLater := by
    decide +kernel
  have hat : s.sweeps[0]? = some (.returned 1) := by
    rw [hsweeps]
    rfl
  refine ⟨s, h, fun hthere => ?_⟩
  have hyoung := cleared_of_sweep sweepLater_namedApart hbefore hfine h hat left
    (List.mem_cons_of_mem _ List.mem_cons_self) (by decide) hthere
  exact absurd hyoung (by decide)

end CollabIDE.Runner.Reaper
