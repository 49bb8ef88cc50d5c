import CollabIDE.Editor.EditorPane
/-!
# What an editor is bound to

Every open tab has one provider that is alive and no other provider is, and no
editor state, cached or in the view, is bound to the text of a destroyed
provider or of another file.  The state of a tab lasts as long as the tab is
open and every render shows a document that is ready.
-/

namespace CollabIDE.Editor.EditorPane

open CollabIDE.Editor.OpenFiles CollabIDE.Lib.Machine CollabIDE.Lib.PathPrefix

variable {s t : State} {ps : Providers} {c : CodeMirror} {d key : String} {p : Nat}

/-! ## Keys -/

theorem split_join {fileIds : List String} (hne : fileIds ≠ [])
    (hplain : ∀ fileId ∈ fileIds, nul ∉ fileId.toList) : split (join fileIds) = fileIds := by
  have hparts : ∀ part ∈ fileIds.map String.toList, nul ∉ part := by
    intro part hpart
    obtain ⟨fileId, hfileId, rfl⟩ := List.mem_map.mp hpart
    exact hplain fileId hfileId
  rw [split, join, String.toList_ofList,
    List.splitOn_intercalate nul hparts (by simpa using hne), List.map_map]
  have hid : String.ofList ∘ String.toList = id := funext fun s => String.ofList_toList
  rw [hid, List.map_id]

theorem mem_of_lookup {β : Type} {l : List (String × β)} {k : String} {b : β}
    (h : l.lookup k = some b) : (k, b) ∈ l := by
  obtain ⟨front, back, rfl, -⟩ := List.lookup_eq_some_iff.mp h
  exact List.mem_append_right _ List.mem_cons_self

/-! ## Providers -/

/-- The providers that are not destroyed are those of the map, one a file. -/
structure Owned (ps : Providers) : Prop where
  keys : (ps.live.map Prod.fst).Nodup
  alive : ∀ entry ∈ ps.live, ∃ provider, ps.objects[entry.2]? = some provider ∧
    provider.fileId = entry.1 ∧ provider.destroyed = false
  only : ∀ p provider, ps.objects[p]? = some provider → provider.destroyed = false →
    (provider.fileId, p) ∈ ps.live

theorem Owned.construct (h : Owned ps) (fileId : String) : Owned (construct ps fileId) := by
  unfold EditorPane.construct
  split
  · exact h
  · next hnew =>
      have hnot : fileId ∉ ps.live.map Prod.fst := by
        rintro hmem
        obtain ⟨entry, hentry, rfl⟩ := List.mem_map.mp hmem
        exact hnew (List.lookup_isSome_iff.mpr ⟨entry, hentry, beq_self_eq_true _⟩)
      refine ⟨?_, fun entry hentry => ?_, fun p provider hp halive => ?_⟩
      · rw [List.map_append]
        exact h.keys.append (List.nodup_singleton _) (by simpa using hnot)
      · rcases List.mem_append.mp hentry with hentry | hentry
        · obtain ⟨provider, hp, hrest⟩ := h.alive entry hentry
          have hlt := (List.getElem?_eq_some_iff.mp hp).1
          exact ⟨provider, List.getElem?_append_left hlt ▸ hp, hrest⟩
        · rw [List.mem_singleton.mp hentry]
          exact ⟨⟨fileId, false, false⟩, List.getElem?_concat_length, rfl, rfl⟩
      · dsimp only at hp
        rcases Nat.lt_or_ge p ps.objects.length with hlt | hge
        · rw [List.getElem?_append_left hlt] at hp
          exact List.mem_append_left _ (h.only p provider hp halive)
        · rw [List.getElem?_append_right hge] at hp
          obtain ⟨hlt, heq⟩ := List.getElem?_eq_some_iff.mp hp
          have hp' : p = ps.objects.length := by
            rw [List.length_singleton] at hlt
            omega
          rw [hp', ← heq]
          simp

theorem mem_construct {fileId k : String} :
    k ∈ (construct ps fileId).live.map Prod.fst ↔ k ∈ ps.live.map Prod.fst ∨ k = fileId := by
  unfold construct
  split
  · next hold =>
      obtain ⟨entry, hentry, heq⟩ := List.lookup_isSome_iff.mp hold
      refine (or_iff_left_of_imp fun hk => ?_).symm
      rw [hk, beq_iff_eq.mp heq]
      exact List.mem_map_of_mem hentry
  · simp

theorem subset_construct (ps : Providers) (fileId : String) :
    ps.live ⊆ (construct ps fileId).live := by
  unfold construct
  split
  · exact List.Subset.refl _
  · exact List.subset_append_left _ _

theorem construct_all (h : Owned ps) (fileIds : List String) :
    Owned (fileIds.foldl construct ps) ∧ ps.live ⊆ (fileIds.foldl construct ps).live ∧
    ∀ k, k ∈ (fileIds.foldl construct ps).live.map Prod.fst ↔
      k ∈ ps.live.map Prod.fst ∨ k ∈ fileIds := by
  induction fileIds generalizing ps with
  | nil => exact ⟨h, List.Subset.refl _, fun k => by simp⟩
  | cons fileId fileIds ih =>
      obtain ⟨howned, hsubset, hkeys⟩ := ih (h.construct fileId)
      refine ⟨howned, List.Subset.trans (subset_construct ps fileId) hsubset, fun k => ?_⟩
      rw [List.foldl_cons, hkeys, mem_construct, List.mem_cons, or_assoc]

theorem getElem?_destroy (objects : List Provider) (p q : Nat) :
    (destroy objects p)[q]? =
      if p = q then objects[q]?.map fun provider => { provider with destroyed := true }
      else objects[q]? := by
  rw [destroy, List.getElem?_modify]
  split <;> simp

theorem Owned.discard (h : Owned ps) (wanted : List String) {entry : String × Nat}
    (hentry : entry ∈ ps.live) : Owned (discard wanted ps entry) := by
  unfold EditorPane.discard
  split
  · exact h
  · obtain ⟨provider, hp, hid, -⟩ := h.alive entry hentry
    refine ⟨h.keys.sublist (List.filter_sublist.map _), fun other hother => ?_,
      fun q found hq halive => ?_⟩
    · obtain ⟨hmem, hne⟩ := List.mem_filter.mp hother
      obtain ⟨found, hfound, hid', halive⟩ := h.alive other hmem
      have hother : entry.2 ≠ other.2 := by
        intro heq
        rw [heq, hfound] at hp
        obtain rfl := Option.some.inj hp
        exact of_decide_eq_true hne (hid'.symm.trans hid)
      refine ⟨found, ?_, hid', halive⟩
      rw [getElem?_destroy, if_neg hother]
      exact hfound
    · rw [getElem?_destroy] at hq
      split at hq
      · obtain ⟨before, -, rfl⟩ := Option.map_eq_some_iff.mp hq
        cases halive
      · next hne =>
          have hmem := h.only q found hq halive
          refine List.mem_filter.mpr ⟨hmem, decide_eq_true fun heq => hne ?_⟩
          have hsame : (found.fileId, q) = entry :=
            List.inj_on_of_nodup_map h.keys hmem hentry heq
          rw [← hsame]

theorem discard_all (h : Owned ps) (wanted : List String) (entries : List (String × Nat))
    (hentries : ∀ entry ∈ entries, entry ∈ ps.live) (hkeys : (entries.map Prod.fst).Nodup) :
    Owned (entries.foldl (discard wanted) ps) ∧
    ∀ entry, entry ∈ (entries.foldl (discard wanted) ps).live ↔
      entry ∈ ps.live ∧ (entry.1 ∈ wanted ∨ entry.1 ∉ entries.map Prod.fst) := by
  induction entries generalizing ps with
  | nil => exact ⟨h, fun entry => by simp⟩
  | cons first entries ih =>
      have hfirst := hentries first List.mem_cons_self
      obtain ⟨hnot, hrest⟩ := List.nodup_cons.mp hkeys
      have hlive : ∀ entry, entry ∈ (discard wanted ps first).live ↔
          entry ∈ ps.live ∧ (entry.1 ∈ wanted ∨ entry.1 ≠ first.1) := by
        intro entry
        unfold discard
        split
        · next hin =>
            refine (and_iff_left ?_).symm
            by_cases heq : entry.1 = first.1
            · exact .inl (by rw [heq]; exact hin)
            · exact .inr heq
        · next hin =>
            rw [List.mem_filter, decide_eq_true_iff]
            refine and_congr_right fun _ => (or_iff_right_of_imp fun hin' heq => ?_).symm
            exact hin (heq ▸ hin')
      have hlater : ∀ entry ∈ entries, entry ∈ (discard wanted ps first).live := by
        intro entry hentry
        have hmem := hentries entry (List.mem_cons_of_mem _ hentry)
        refine (hlive entry).mpr ⟨hmem, .inr fun heq => ?_⟩
        exact hnot (heq ▸ List.mem_map_of_mem hentry)
      obtain ⟨howned, hmem⟩ := ih (h.discard wanted hfirst) hlater hrest
      refine ⟨howned, fun entry => ?_⟩
      rw [List.foldl_cons, hmem, hlive, List.map_cons, List.mem_cons, not_or, and_assoc,
        ← or_and_left]

/-- The effect leaves a provider for every wanted file and no other, the ones there were among
them. -/
theorem reconcile_spec (h : Owned ps) (key : String) :
    Owned (reconcile ps key) ∧
    (∀ entry ∈ ps.live, entry.1 ∈ wanted key → entry ∈ (reconcile ps key).live) ∧
    ∀ k, k ∈ (reconcile ps key).live.map Prod.fst ↔ k ∈ wanted key := by
  obtain ⟨hbuilt, hsubset, hkeys⟩ := construct_all h (wanted key)
  obtain ⟨howned, hmem⟩ := discard_all hbuilt (wanted key) _ (fun _ hentry => hentry) hbuilt.keys
  refine ⟨howned, fun entry hentry hwanted => ?_, fun k => ⟨fun hk => ?_, fun hk => ?_⟩⟩
  · exact (hmem entry).mpr ⟨hsubset hentry, .inl hwanted⟩
  · obtain ⟨entry, hentry, rfl⟩ := List.mem_map.mp hk
    obtain ⟨hlive, hcase⟩ := (hmem entry).mp hentry
    exact hcase.resolve_right fun hnot => hnot (List.mem_map_of_mem hlive)
  · obtain ⟨entry, hentry, rfl⟩ := List.mem_map.mp ((hkeys k).mpr (.inr hk))
    exact List.mem_map_of_mem ((hmem entry).mpr ⟨hentry, .inl hk⟩)

theorem objects_discard_nil (entries : List (String × Nat)) (ps : Providers) :
    (entries.foldl (discard []) ps).objects =
      entries.foldl (fun objects entry => destroy objects entry.2) ps.objects := by
  induction entries generalizing ps with
  | nil => rfl
  | cons first entries ih =>
      rw [List.foldl_cons, List.foldl_cons, ih, discard, if_neg List.not_mem_nil]

theorem destroyed_of_destroyAll (h : Owned ps) {provider : Provider}
    (hprovider : provider ∈ (destroyAll ps).objects) : provider.destroyed = true := by
  obtain ⟨howned, hmem⟩ := discard_all h [] ps.live (fun _ hentry => hentry) h.keys
  rw [destroyAll, ← objects_discard_nil] at hprovider
  obtain ⟨p, hp⟩ := List.getElem?_of_mem hprovider
  by_contra halive
  obtain ⟨hlive, hcase⟩ := (hmem _).mp (howned.only p provider hp (Bool.eq_false_iff.mpr halive))
  exact hcase.elim List.not_mem_nil fun hnot => hnot (List.mem_map_of_mem hlive)

theorem Owned.setReady (h : Owned ps) (p : Nat) :
    Owned { ps with objects := setReady ps.objects p } where
  keys := h.keys
  alive entry hentry := by
    obtain ⟨provider, hp, hid, halive⟩ := h.alive entry hentry
    rw [EditorPane.setReady, List.getElem?_modify, hp]
    split
    · exact ⟨{ provider with ready := true }, by simp [halive], hid, halive⟩
    · exact ⟨provider, rfl, hid, halive⟩
  only q provider hq halive := by
    rw [EditorPane.setReady, List.getElem?_modify] at hq
    obtain ⟨before, hbefore, rfl⟩ := Option.map_eq_some_iff.mp hq
    split at halive
    · next heq =>
        have hid : (if before.destroyed then before
            else { before with ready := true }).fileId = before.fileId := by
          split <;> rfl
        rw [if_pos heq, hid]
        split at halive
        · exact h.only q before hbefore halive
        · exact h.only q before hbefore halive
    · next hne =>
        rw [if_neg hne]
        exact h.only q before hbefore halive

/-! ## Editor states -/

/-- The editor states are bound to living providers of their own files, and these are among those
that were open when the second effect ran last. -/
structure Bound (live : List (String × Nat)) (key : String) (c : CodeMirror) : Prop where
  openKey : c.openKey = some key
  states : ∀ entry ∈ c.states, (entry.1, entry.2.ytext) ∈ live ∧ entry.1 ∈ split key
  showing : ∀ entry, c.showing = some entry →
    (entry.1, entry.2.ytext) ∈ live ∧ entry.1 ∈ split key

variable {live : List (String × Nat)} {ids : List String} {serial : Nat}

theorem Bound.mono {live' : List (String × Nat)} (h : Bound live key c)
    (hlive : ∀ entry ∈ live, entry.1 ∈ split key → entry ∈ live') : Bound live' key c where
  openKey := h.openKey
  states entry hentry :=
    ⟨hlive _ (h.states entry hentry).1 (h.states entry hentry).2, (h.states entry hentry).2⟩
  showing entry hentry :=
    ⟨hlive _ (h.showing entry hentry).1 (h.showing entry hentry).2, (h.showing entry hentry).2⟩

@[simp] theorem showing_prune (ids : List String) (c : CodeMirror) :
    (prune ids c).showing = c.showing := by
  unfold prune
  split <;> rfl

@[simp] theorem openKey_prune (ids : List String) (c : CodeMirror) :
    (prune ids c).openKey = some (join ids) := by
  unfold prune
  split
  · assumption
  · rfl

theorem mem_store {states : List (String × EditorState)} {entry other : String × EditorState} :
    other ∈ store states entry ↔ other = entry ∨ other ∈ states ∧ other.1 ≠ entry.1 := by
  rw [store, List.mem_cons, List.mem_filter, decide_eq_true_iff]

theorem mem_keep {entry : String × EditorState} (hentry : entry ∈ keep ids c) :
    entry ∈ c.states ∨ c.showing = some entry ∧ entry.1 ∈ ids := by
  unfold keep at hentry
  split at hentry
  · next previous hprevious =>
      split at hentry
      · next hopen =>
          rcases mem_store.mp hentry with rfl | ⟨hmem, -⟩
          · exact .inr ⟨hprevious, hopen⟩
          · exact .inl hmem
      · exact .inl hentry
  · exact .inl hentry

theorem openKey_switchTo (d : String) (fresh : EditorState) (ids : List String) (c : CodeMirror) :
    (switchTo d fresh ids c).openKey = c.openKey := by
  unfold switchTo
  split <;> rfl

/-- What a mounted or a fresh editor has is bound. -/
def Held (live : List (String × Nat)) (c : CodeMirror) : Prop :=
  c = .mount ∨ ∃ key, Bound live key c

theorem Held.states (h : Held live c) {entry : String × EditorState} (hentry : entry ∈ c.states) :
    (entry.1, entry.2.ytext) ∈ live := by
  rcases h with rfl | ⟨key, hbound⟩
  · cases hentry
  · exact (hbound.states entry hentry).1

theorem Held.showing (h : Held live c) {entry : String × EditorState}
    (hentry : c.showing = some entry) : (entry.1, entry.2.ytext) ∈ live := by
  rcases h with rfl | ⟨key, hbound⟩
  · cases hentry
  · exact (hbound.showing entry hentry).1

theorem mem_prune (h : Held live c) {entry : String × EditorState} :
    entry ∈ (prune ids c).states ↔ entry ∈ c.states ∧ entry.1 ∈ split (join ids) := by
  unfold prune
  split
  · next hsame =>
      refine (and_iff_left_of_imp fun hentry => ?_).symm
      rcases h with rfl | ⟨key, hbound⟩
      · cases hentry
      · obtain rfl := Option.some.inj (hbound.openKey.symm.trans hsame)
        exact (hbound.states entry hentry).2
  · rw [List.mem_filter, decide_eq_true_iff]

theorem bound_switchTo (h : Held live c) (hids : split (join ids) = ids) (hd : d ∈ ids)
    (hlive : (d, p) ∈ live) :
    Bound live (join ids) (switchTo d ⟨serial, p⟩ ids (prune ids c)) := by
  have hopenKey : (switchTo d ⟨serial, p⟩ ids (prune ids c)).openKey = some (join ids) := by
    rw [openKey_switchTo, openKey_prune]
  have hpruned : ∀ entry ∈ (prune ids c).states,
      (entry.1, entry.2.ytext) ∈ live ∧ entry.1 ∈ split (join ids) := fun entry hentry =>
    ⟨h.states ((mem_prune h).mp hentry).1, ((mem_prune h).mp hentry).2⟩
  unfold switchTo at hopenKey ⊢
  split at hopenKey
  · next hsame =>
      rw [if_pos hsame]
      refine ⟨hopenKey, hpruned, fun entry hentry => ⟨?_, ?_⟩⟩
      · rw [showing_prune] at hentry
        exact h.showing hentry
      · rw [hentry] at hsame
        rw [Option.some.inj hsame, hids]
        exact hd
  · next hne =>
      rw [if_neg hne]
      have hkept : ∀ entry ∈ keep ids (prune ids c),
          (entry.1, entry.2.ytext) ∈ live ∧ entry.1 ∈ split (join ids) := by
        intro entry hentry
        rcases mem_keep hentry with hmem | ⟨hshowing, hopen⟩
        · exact hpruned entry hmem
        · rw [showing_prune] at hshowing
          exact ⟨h.showing hshowing, by rw [hids]; exact hopen⟩
      refine ⟨hopenKey, hkept, fun entry hentry => ?_⟩
      obtain rfl := Option.some.inj hentry
      refine ⟨?_, by rw [hids]; exact hd⟩
      -- by whether a state was left
      cases hlookup : (keep ids (prune ids c)).lookup d with
      | none => exact hlive
      | some state => exact (hkept _ (mem_of_lookup hlookup)).1

/-! ## The pane -/

structure Inv (s : State) : Prop where
  tabs : Valid s.openFiles
  owned : Owned s.providers
  bound : ∀ c, s.editor = some c → ∃ key, Bound s.providers.live key c
  synced : s.mounted = true → ∀ key user, s.deps = some (key, some user) →
    ∀ k, k ∈ s.providers.live.map Prod.fst ↔ k ∈ wanted key
  gone : s.mounted = false → ∀ provider ∈ s.providers.objects, provider.destroyed = true

theorem split_join_docIds (s : State) (hne : s.docIds ≠ []) : split (join s.docIds) = s.docIds := by
  refine split_join hne fun fileId hfileId => ?_
  obtain ⟨id, -, rfl⟩ := List.mem_map.mp hfileId
  exact id.plain

theorem wanted_join_docIds (s : State) : wanted (join s.docIds) = s.docIds := by
  unfold wanted
  split
  · next hpos =>
      refine split_join_docIds s fun hnil => ?_
      rw [hnil] at hpos
      exact absurd hpos (by decide)
  · next hzero =>
      -- the first id is not empty, so neither is the key
      cases hids : s.openFiles.ids with
      | nil => rw [State.docIds, hids]; rfl
      | cons id rest =>
          have hnil : (join s.docIds).toList = [] := List.length_eq_zero_iff.mp (by omega)
          have hkey : join s.docIds = "" := String.toList_inj.mp hnil
          have hsplit := split_join_docIds s
            (by rw [State.docIds, hids]; exact List.cons_ne_nil _ _)
          rw [hkey, State.docIds, hids, List.map_cons] at hsplit
          exact absurd (List.cons.inj hsplit).1.symm id.nonempty

theorem shown_spec (h : s.shown = some (d, p)) : d ∈ s.docIds ∧ (d, p) ∈ s.providers.live := by
  obtain ⟨active, hactive, h⟩ := Option.bind_eq_some_iff.mp h
  obtain ⟨q, hq, h⟩ := Option.bind_eq_some_iff.mp h
  rw [Option.ite_none_right_eq_some] at h
  obtain ⟨rfl, rfl⟩ := Prod.mk.inj (Option.some.inj h.2)
  refine ⟨?_, mem_of_lookup hq⟩
  exact List.mem_map_of_mem (List.mem_map_of_mem (List.mem_of_find?_eq_some hactive))

theorem inv_commit (h : Inv s) (user : Option Nat) (hmounted : s.mounted = true) :
    Inv (commit user s) := by
  have hreconcile := reconcile_spec h.owned (join s.docIds)
  have hwanted := wanted_join_docIds s
  have hheld : Held s.providers.live (s.editor.getD .mount) := by
    cases heditor : s.editor with
    | none => exact .inl rfl
    | some c => exact .inr (h.bound c heditor)
  have hbound : ∀ c, (commit user s).editor = some c →
      Bound s.providers.live (join s.docIds) c ∧ s.docIds ≠ [] := by
    intro c hc
    obtain ⟨⟨d, p⟩, hshown, rfl⟩ := Option.map_eq_some_iff.mp hc
    obtain ⟨hd, hlive⟩ := shown_spec hshown
    have hne : s.docIds ≠ [] := List.ne_nil_of_mem hd
    exact ⟨bound_switchTo hheld (split_join_docIds s hne) hd hlive, hne⟩
  unfold commit at hbound ⊢
  dsimp only at hbound ⊢
  by_cases hsame : s.deps = some (join s.docIds, user) ∨ user = none
  · simp only [if_pos hsame] at hbound ⊢
    refine ⟨h.tabs, h.owned, fun c hc => ⟨_, (hbound c hc).1⟩, fun _ key u hdeps => ?_,
      fun hgone => absurd hmounted (by rw [hgone]; exact Bool.false_ne_true)⟩
    obtain ⟨rfl, rfl⟩ := Prod.mk.inj (Option.some.inj hdeps)
    exact h.synced hmounted _ u (hsame.resolve_right (Option.some_ne_none u))
  · simp only [if_neg hsame] at hbound ⊢
    refine ⟨h.tabs, hreconcile.1, fun c hc => ⟨_, (hbound c hc).1.mono fun entry hentry hkey => ?_⟩,
      fun _ key u hdeps => ?_,
      fun hgone => absurd hmounted (by rw [hgone]; exact Bool.false_ne_true)⟩
    · refine hreconcile.2.1 entry hentry ?_
      rw [split_join_docIds s (hbound c hc).2] at hkey
      rw [hwanted]
      exact hkey
    · obtain ⟨rfl, -⟩ := Prod.mk.inj (Option.some.inj hdeps)
      exact hreconcile.2.2

theorem inv_step {ev : Event} (h : Inv s) (hstep : step s ev = some t) : Inv t := by
  unfold step at hstep
  rw [Option.ite_none_right_eq_some] at hstep
  obtain ⟨hmounted, hstep⟩ := hstep
  have hnotGone : ¬ s.mounted = false := by rw [hmounted]; exact Bool.noConfusion
  cases ev with
  | act action =>
      obtain ⟨openFiles, hact, rfl⟩ := Option.map_eq_some_iff.mp hstep
      exact ⟨valid_step h.tabs hact, h.owned, h.bound, h.synced, h.gone⟩
  | commit user =>
      obtain rfl := Option.some.inj hstep
      exact inv_commit h user hmounted
  | ready p =>
      obtain rfl := Option.some.inj hstep
      exact ⟨h.tabs, h.owned.setReady p, h.bound, h.synced, fun hgone => absurd hgone hnotGone⟩
  | unmount =>
      obtain rfl := Option.some.inj hstep
      have hgone : ∀ provider ∈ (destroyAll s.providers).objects, provider.destroyed = true :=
        fun _ hprovider => destroyed_of_destroyAll h.owned hprovider
      refine ⟨h.tabs, ⟨List.nodup_nil, fun _ hentry => absurd hentry List.not_mem_nil,
        fun p provider hp halive => ?_⟩, fun c hc => absurd hc (Option.some_ne_none c).symm,
        fun hmounted => absurd hmounted Bool.false_ne_true, fun _ => hgone⟩
      exact absurd (hgone provider (List.mem_of_getElem? hp))
        (by rw [halive]; exact Bool.false_ne_true)

theorem inv_start : Inv start :=
  ⟨valid_start, ⟨List.nodup_nil, fun _ hentry => absurd hentry List.not_mem_nil,
    fun _ _ hp => absurd hp (Option.some_ne_none _).symm⟩,
    fun c hc => absurd hc (Option.some_ne_none c).symm,
    fun _ _ _ hdeps => absurd hdeps (Option.some_ne_none _).symm,
    fun hgone => absurd hgone Bool.noConfusion⟩

theorem inv_run {events : List Event} (h : run step start events = some s) : Inv s :=
  run_invariant (fun _ _ _ => inv_step) inv_start h

/-- A file is opened and its text comes. -/
def opening : List Event :=
  [.act (.openFile ⟨"1", by decide, by decide⟩ "a.ts"), .commit (some 0), .ready 0,
    .commit (some 0)]

def opened : State :=
  ⟨⟨[⟨⟨"1", by decide, by decide⟩, "a.ts", "a.ts"⟩], some ⟨"1", by decide, by decide⟩,
      [⟨"1", by decide, by decide⟩]⟩,
    ⟨[⟨"1", true, false⟩], [("1", 0)]⟩, some ⟨some "1", [], some ("1", ⟨1, 0⟩)⟩,
    some ("1", some 0), true, 2⟩

theorem run_opening : run step start opening = some opened := by decide +kernel

/-- Every editor state, cached or in the view, is bound to the text of a provider of its file that
is alive.  No file has two of these, and at the end there is none. -/
theorem bindings_of_run {events : List Event} (h : run step start events = some s) :
    (∀ c, s.editor = some c → ∀ entry, entry ∈ c.states ∨ c.showing = some entry →
      ∃ provider, s.providers.objects[entry.2.ytext]? = some provider ∧
        provider.fileId = entry.1 ∧ provider.destroyed = false) ∧
    (∀ (p q : Nat) (a b : Provider), s.providers.objects[p]? = some a →
      s.providers.objects[q]? = some b → a.destroyed = false → b.destroyed = false →
      a.fileId = b.fileId → p = q) ∧
    (s.mounted = false → ∀ provider ∈ s.providers.objects, provider.destroyed = true) := by
  have hinv := inv_run h
  refine ⟨fun c hc entry hentry => ?_, fun p q a b ha hb halive hblive hid => ?_, hinv.gone⟩
  · obtain ⟨key, hbound⟩ := hinv.bound c hc
    have hlive : (entry.1, entry.2.ytext) ∈ s.providers.live :=
      hentry.elim (fun hmem => (hbound.states entry hmem).1)
        fun hshowing => (hbound.showing entry hshowing).1
    exact hinv.owned.alive _ hlive
  · have hp := hinv.owned.only p a ha halive
    have hq := hinv.owned.only q b hb hblive
    have hsame : (a.fileId, p) = (b.fileId, q) :=
      List.inj_on_of_nodup_map hinv.owned.keys hp hq hid
    exact (Prod.mk.inj hsame).2

theorem bindings_of_run_opening :
    ∃ provider, opened.providers.objects[0]? = some provider ∧ provider.fileId = "1" ∧
      provider.destroyed = false :=
  (bindings_of_run run_opening).1 _ rfl ("1", ⟨1, 0⟩) (.inr rfl)

/-- After a render with a user the files with a living provider are those of the open tabs. -/
theorem alive_iff_open {events : List Event} {user : Nat}
    (h : run step start (events ++ [.commit (some user)]) = some s) (fileId : String) :
    (∃ provider ∈ s.providers.objects, provider.fileId = fileId ∧ provider.destroyed = false) ↔
      fileId ∈ s.docIds := by
  have hinv := inv_run h
  obtain ⟨u, hu, hlast⟩ := run_append_eq_some.mp h
  obtain ⟨t, hstep, hend⟩ := run_cons_eq_some.mp hlast
  obtain rfl := Option.some.inj hend
  unfold step at hstep
  rw [Option.ite_none_right_eq_some] at hstep
  obtain ⟨hmounted, hstep⟩ := hstep
  obtain rfl := Option.some.inj hstep
  have hkeys := hinv.synced hmounted (join u.docIds) user rfl fileId
  rw [wanted_join_docIds] at hkeys
  refine Iff.trans ⟨fun halive => ?_, fun hmem => ?_⟩ hkeys
  · obtain ⟨provider, hprovider, rfl, halive⟩ := halive
    obtain ⟨p, hp⟩ := List.getElem?_of_mem hprovider
    exact List.mem_map_of_mem (hinv.owned.only p provider hp halive)
  · obtain ⟨entry, hentry, rfl⟩ := List.mem_map.mp hmem
    obtain ⟨provider, hp, hid, halive⟩ := hinv.owned.alive entry hentry
    exact ⟨provider, List.mem_of_getElem? hp, hid, halive⟩

theorem alive_iff_open_opening :
    "1" ∈ opened.docIds ∧ ∃ provider ∈ opened.providers.objects,
      provider.fileId = "1" ∧ provider.destroyed = false := by
  have hmem : "1" ∈ opened.docIds := List.mem_cons_self
  exact ⟨hmem, (@alive_iff_open opened (opening.take 3) 0 run_opening "1").mpr hmem⟩

/-! ## How long a state lasts -/

theorem lookup_filter {β : Type} (keep : String → Bool) (l : List (String × β)) (k : String) :
    (l.filter fun entry => keep entry.1).lookup k = if keep k then l.lookup k else none := by
  induction l with
  | nil => rw [List.filter_nil, List.lookup_nil, ite_self]
  | cons entry l ih =>
      obtain ⟨k', b⟩ := entry
      by_cases hkeep : keep k' = true
      · rw [List.filter_cons_of_pos (by exact hkeep), List.lookup_cons, List.lookup_cons]
        by_cases hk : k = k'
        · subst hk
          simp [hkeep]
        · have hne : (k == k') = false := beq_eq_false_iff_ne.mpr hk
          rw [hne]
          exact ih
      · rw [List.filter_cons_of_neg (by exact hkeep), List.lookup_cons, ih]
        by_cases hk : k = k'
        · subst hk
          simp [hkeep]
        · have hne : (k == k') = false := beq_eq_false_iff_ne.mpr hk
          rw [hne]

variable {x : EditorState}

theorem lookup_prune (h : Held live c) :
    (prune ids c).states.lookup d = some x ↔
      c.states.lookup d = some x ∧ d ∈ split (join ids) := by
  unfold prune
  split
  · next hsame =>
      refine (and_iff_left_of_imp fun hlookup => ?_).symm
      rcases h with rfl | ⟨key, hbound⟩
      · cases hlookup
      · obtain rfl := Option.some.inj (hbound.openKey.symm.trans hsame)
        exact (hbound.states _ (mem_of_lookup hlookup)).2
  · rw [lookup_filter fun key => decide (key ∈ split (join ids)), Option.ite_none_right_eq_some,
      decide_eq_true_iff]
    exact And.comm

theorem lookup_store (states : List (String × EditorState)) (entry : String × EditorState) :
    (store states entry).lookup d = if entry.1 = d then some entry.2 else states.lookup d := by
  rw [store, List.lookup_cons]
  by_cases hd : entry.1 = d
  · simp [hd]
  · have hd' : d ≠ entry.1 := fun heq => hd heq.symm
    have hne : (d == entry.1) = false := beq_eq_false_iff_ne.mpr hd'
    rw [hne, if_neg hd, lookup_filter fun key => decide (key ≠ entry.1),
      if_pos (decide_eq_true hd')]

theorem lookup_keep (h : Held live c) (hids : split (join ids) = ids) :
    (keep ids (prune ids c)).lookup d = some x ↔ c.stateOf d = some x ∧ d ∈ ids := by
  have hpruned : (prune ids c).states.lookup d = some x ↔ _ := lookup_prune h
  rw [hids] at hpruned
  unfold keep CodeMirror.stateOf
  rw [showing_prune]
  cases c.showing with
  | none => exact hpruned
  | some previous =>
      dsimp only
      by_cases hopen : previous.1 ∈ ids
      · rw [if_pos hopen, lookup_store]
        by_cases hd : previous.1 = d
        · rw [if_pos hd, if_pos hd, ← hd]
          exact (and_iff_left hopen).symm
        · rw [if_neg hd, if_neg hd]
          exact hpruned
      · rw [if_neg hopen]
        by_cases hd : previous.1 = d
        · rw [hd] at hopen
          exact iff_of_false (fun hlookup => hopen (hpruned.mp hlookup).2)
            fun hkept => hopen hkept.2
        · rw [if_neg hd]
          exact hpruned

/-- A render that shows a document keeps the states of the open tabs. -/
theorem stateOf_switchTo (h : Held live c) (hids : split (join ids) = ids) {shown : String}
    (hshown : shown ∈ ids) {fresh : EditorState} (hfresh : x ≠ fresh) :
    (switchTo shown fresh ids (prune ids c)).stateOf d = some x ↔
      c.stateOf d = some x ∧ d ∈ ids := by
  have hkeep := lookup_keep (d := d) (x := x) h hids
  unfold switchTo
  split
  · next hsame =>
      have hpruned : (prune ids c).states.lookup d = some x ↔ _ := lookup_prune h
      rw [hids] at hpruned
      rw [showing_prune] at hsame
      obtain ⟨previous, hprevious, rfl⟩ := Option.map_eq_some_iff.mp hsame
      unfold CodeMirror.stateOf
      rw [showing_prune, hprevious]
      dsimp only
      by_cases hd : previous.1 = d
      · rw [if_pos hd, if_pos hd, ← hd]
        exact (and_iff_left hshown).symm
      · rw [if_neg hd, if_neg hd]
        exact hpruned
  · unfold CodeMirror.stateOf at hkeep ⊢
    dsimp only
    by_cases hd : shown = d
    · rw [if_pos hd, hd, ← hkeep]
      cases (keep ids (prune ids c)).lookup d with
      | none =>
          exact iff_of_false (fun heq => hfresh (Option.some.inj heq).symm)
            (Option.some_ne_none x).symm
      | some state => exact Iff.rfl
    · rw [if_neg hd]
      exact hkeep

/-- The tab of a document is in state `x`. -/
def Has (d : String) (x : EditorState) (s : State) : Prop :=
  ∃ c, s.editor = some c ∧ c.stateOf d = some x

/-- A render shows a document and finds the tab open. -/
def Keeps (d : String) (s : State) : Event → Prop
  | .commit _ => s.shown ≠ none ∧ d ∈ s.docIds
  | .act _ | .ready _ => True
  | .unmount => False

theorem has_commit (h : Inv s) (hx : x.serial < s.created) (user : Option Nat) :
    Has d x (commit user s) ↔ Has d x s ∧ s.shown ≠ none ∧ d ∈ s.docIds := by
  have hheld : Held s.providers.live (s.editor.getD .mount) := by
    cases heditor : s.editor with
    | none => exact .inl rfl
    | some c => exact .inr (h.bound c heditor)
  have hhas : Has d x s ↔ (s.editor.getD .mount).stateOf d = some x := by
    unfold Has
    cases s.editor with
    | none => exact iff_of_false (by simp) (by simp [CodeMirror.stateOf, CodeMirror.mount])
    | some c => simp
  unfold Has at hhas ⊢
  rw [hhas]
  unfold commit
  cases hshown : s.shown with
  | none => simp
  | some shown =>
      obtain ⟨hmem, -⟩ := shown_spec (d := shown.1) (p := shown.2) hshown
      have hfresh : x ≠ ⟨s.created, shown.2⟩ := fun heq => absurd hx (by simp [heq])
      have hkept := stateOf_switchTo (d := d) hheld
        (split_join_docIds s (List.ne_nil_of_mem hmem)) hmem hfresh
      simpa using hkept

theorem created_step {ev : Event} (h : step s ev = some t) : s.created ≤ t.created := by
  unfold step at h
  rw [Option.ite_none_right_eq_some] at h
  cases ev with
  | act action =>
      obtain ⟨openFiles, -, rfl⟩ := Option.map_eq_some_iff.mp h.2
      exact Nat.le_refl _
  | commit user =>
      obtain rfl := Option.some.inj h.2
      exact Nat.le_succ _
  | ready p =>
      obtain rfl := Option.some.inj h.2
      exact Nat.le_refl _
  | unmount =>
      obtain rfl := Option.some.inj h.2
      exact Nat.le_refl _

theorem has_step {ev : Event} (h : Inv s) (hx : x.serial < s.created) (hstep : step s ev = some t) :
    Has d x t ↔ Has d x s ∧ Keeps d s ev := by
  unfold step at hstep
  rw [Option.ite_none_right_eq_some] at hstep
  cases ev with
  | act action =>
      obtain ⟨openFiles, -, rfl⟩ := Option.map_eq_some_iff.mp hstep.2
      exact (and_iff_left trivial).symm
  | commit user =>
      obtain rfl := Option.some.inj hstep.2
      exact has_commit h hx user
  | ready p =>
      obtain rfl := Option.some.inj hstep.2
      exact (and_iff_left trivial).symm
  | unmount =>
      obtain rfl := Option.some.inj hstep.2
      exact iff_of_false (fun hhas => absurd hhas (by simp [Has])) fun hkeeps => hkeeps.2

/-- The editor states have their numbers from the counter. -/
def Numbered (s : State) : Prop :=
  ∀ c, s.editor = some c → ∀ entry, entry ∈ c.states ∨ c.showing = some entry →
    entry.2.serial < s.created

theorem numbered_commit (h : Numbered s) (user : Option Nat) : Numbered (commit user s) := by
  have hlater : ∀ c, s.editor.getD .mount = c → ∀ entry, entry ∈ c.states ∨ c.showing = some entry →
      entry.2.serial < s.created + 1 := by
    intro c hc entry hentry
    cases heditor : s.editor with
    | none =>
        rw [heditor] at hc
        subst hc
        exact hentry.elim (fun hmem => absurd hmem List.not_mem_nil)
          fun hshowing => absurd hshowing (Option.some_ne_none entry).symm
    | some old =>
        rw [heditor] at hc
        subst hc
        exact Nat.lt_succ_of_lt (h old heditor entry hentry)
  have hpruned : ∀ entry ∈ (prune s.docIds (s.editor.getD .mount)).states,
      entry.2.serial < s.created + 1 := by
    intro entry hentry
    refine hlater _ rfl entry (.inl ?_)
    unfold prune at hentry
    split at hentry
    · exact hentry
    · exact List.mem_of_mem_filter hentry
  have hkept : ∀ entry ∈ keep s.docIds (prune s.docIds (s.editor.getD .mount)),
      entry.2.serial < s.created + 1 := by
    intro entry hentry
    rcases mem_keep hentry with hmem | ⟨hshowing, -⟩
    · exact hpruned entry hmem
    · rw [showing_prune] at hshowing
      exact hlater _ rfl entry (.inr hshowing)
  intro c hc entry hentry
  change entry.2.serial < s.created + 1
  obtain ⟨shown, -, rfl⟩ := Option.map_eq_some_iff.mp hc
  unfold switchTo at hentry
  split at hentry
  · rw [showing_prune] at hentry
    exact hentry.elim (hpruned entry) fun hshowing => hlater _ rfl entry (.inr hshowing)
  · rcases hentry with hmem | hshowing
    · exact hkept entry hmem
    · obtain rfl := Option.some.inj hshowing
      cases hlookup : (keep s.docIds (prune s.docIds (s.editor.getD .mount))).lookup shown.1 with
      | none => exact Nat.lt_succ_self _
      | some state => exact hkept _ (mem_of_lookup hlookup)

theorem numbered_step {ev : Event} (h : Numbered s) (hstep : step s ev = some t) : Numbered t := by
  unfold step at hstep
  rw [Option.ite_none_right_eq_some] at hstep
  cases ev with
  | act action =>
      obtain ⟨openFiles, -, rfl⟩ := Option.map_eq_some_iff.mp hstep.2
      exact h
  | commit user =>
      obtain rfl := Option.some.inj hstep.2
      exact numbered_commit h user
  | ready p =>
      obtain rfl := Option.some.inj hstep.2
      exact h
  | unmount =>
      obtain rfl := Option.some.inj hstep.2
      exact fun c hc => absurd hc (Option.some_ne_none c).symm

theorem Has.serial_lt (h : Has d x s) (hnumbered : Numbered s) : x.serial < s.created := by
  obtain ⟨c, hc, hstate⟩ := h
  unfold CodeMirror.stateOf at hstate
  split at hstate
  · next shown hshown =>
      split at hstate
      · obtain rfl := Option.some.inj hstate
        exact hnumbered c hc shown (.inr hshown)
      · exact hnumbered c hc _ (.inl (mem_of_lookup hstate))
  · exact hnumbered c hc _ (.inl (mem_of_lookup hstate))

/-- The state of a tab, its cursor and its undo history with it, lasts through a run just as long as
the tab is open and every render shows a document that is ready. -/
theorem state_lasts_iff {before events : List Event} (hbefore : run step start before = some s)
    (h : run step s events = some t) (hhas : Has d x s) :
    Has d x t ↔ Meets step (Keeps d) s events := by
  have hnumbered : Numbered s := run_invariant (fun _ _ _ => numbered_step)
    (fun c hc => absurd hc (Option.some_ne_none c).symm) hbefore
  refine final_iff_meets (I := fun s => Inv s ∧ x.serial < s.created) ?_ ?_ ?_
    ⟨inv_run hbefore, hhas.serial_lt hnumbered⟩ hhas h
  · exact fun s ev t hI hstep => ⟨inv_step hI.1 hstep, hI.2.trans_le (created_step hstep)⟩
  · exact fun s ev t hI hhas hstep => (has_step hI.1 hI.2 hstep).trans (and_iff_right hhas)
  · exact fun s ev t hI hstep hhas => ((has_step hI.1 hI.2 hstep).mp hhas).1

/-- A second file is opened in front of the first. -/
theorem state_lasts_iff_behind : ∃ t,
    run step opened [.act (.openFile ⟨"2", by decide, by decide⟩ "b.ts"), .commit (some 0)] =
      some t ∧
    (Has "1" ⟨1, 0⟩ t ↔ Meets step (Keeps "1") opened
      [.act (.openFile ⟨"2", by decide, by decide⟩ "b.ts"), .commit (some 0)]) := by
  obtain ⟨t, h⟩ : ∃ t, run step opened
      [.act (.openFile ⟨"2", by decide, by decide⟩ "b.ts"), .commit (some 0)] = some t := ⟨_, rfl⟩
  exact ⟨t, h, state_lasts_iff run_opening h ⟨_, rfl, rfl⟩⟩

end CollabIDE.Editor.EditorPane
