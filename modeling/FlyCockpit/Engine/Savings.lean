-- SUMMARY: The tokens a plan reports as saved, against the tokens of the history before and behind it.
import FlyCockpit.Engine.Prune

/-!
# Reported savings

Applying a plan exchanges the body of each targeted result for its replacement and leaves all other
bodies alone, so the tokens of a history change by the sum of these exchanges. The plan reports the
same sum with each exchange floored at zero. The two differ as soon as one replacement is longer than
the body it replaces, since the marker is a fixed text and nothing compares the two.
-/

namespace FlyCockpit.Engine

open ElisionTarget List

/-- The tokens of all tool-result bodies. -/
def bodyTokens (count : Text → Nat) (history : List Message) : Nat :=
  ((history.flatMap Message.results).map fun r => count r.body).sum

/-! ## What a rewrite does to the results -/

/-- The result a target names gets its new body. -/
def ElisionTarget.rewrite (t : ElisionTarget) (e : Nat × ToolResult) : Nat × ToolResult :=
  if e.1 = t.historyIndex ∧ e.2.call = t.targetCallId then
    (e.1, { e.2 with content := [.text t.replacementBody] })
  else e

/-- A result with a new body under the id. -/
def ToolResult.rewrite (id body : Text) (r : ToolResult) : ToolResult :=
  if r.call = id then { r with content := [.text body] } else r

theorem result?_rewrite (id body : Text) (c : UserContent) :
    (c.rewrite id body).result? = c.result?.map (ToolResult.rewrite id body) := by
  cases c with
  | other b => rfl
  | toolResult r =>
    change (if r.call = id then UserContent.toolResult _ else .toolResult r).result? =
      some (if r.call = id then _ else r)
    split_ifs <;> rfl

theorem results_rewrite (id body : Text) (m : Message) :
    (m.rewrite id body).results = m.results.map (ToolResult.rewrite id body) := by
  cases m with
  | assistant turn content => rfl
  | system content => rfl
  | user content =>
    change (content.map (UserContent.rewrite id body)).filterMap UserContent.result? =
      (content.filterMap UserContent.result?).map _
    rw [filterMap_map, map_filterMap]
    congr 1
    funext c
    exact result?_rewrite id body c

theorem map_snd_resultLocs (history : List Message) :
    (resultLocs history).map Prod.snd = history.flatMap Message.results := by
  have hfrom : ∀ n, ((history.zipIdx n).flatMap fun e => e.1.results.map fun r => (e.2, r)).map Prod.snd =
      history.flatMap Message.results := by
    induction history with
    | nil => exact fun n => rfl
    | cons m history ih =>
      intro n
      rw [zipIdx_cons, flatMap_cons, flatMap_cons, map_append, ih, map_map]
      congr 1
      exact map_id _
  exact hfrom 0

theorem bodyTokens_eq (count : Text → Nat) (history : List Message) :
    bodyTokens count history = ((resultLocs history).map fun e => count e.2.body).sum := by
  rw [bodyTokens, ← map_snd_resultLocs, map_map]
  rfl

theorem resultLocs_modify (t : ElisionTarget) (history : List Message) :
    resultLocs (history.modify t.historyIndex (Message.rewrite t.targetCallId t.replacementBody)) =
      (resultLocs history).map t.rewrite := by
  have hkept : ∀ locs : List (Nat × ToolResult), (∀ e ∈ locs, e.1 ≠ t.historyIndex) →
      locs.map t.rewrite = locs := by
    intro locs hne
    have hid := map_congr_left (f := t.rewrite) (g := id) fun e he => if_neg fun h => hne e he h.1
    rw [hid, map_id]
  have hfrom : ∀ (n i : Nat), n + i = t.historyIndex →
      ((history.modify i (Message.rewrite t.targetCallId t.replacementBody)).zipIdx n).flatMap
          (fun e => e.1.results.map fun r => (e.2, r)) =
        ((history.zipIdx n).flatMap fun e => e.1.results.map fun r => (e.2, r)).map t.rewrite := by
    induction history with
    | nil =>
      intro n i _
      rw [modify_nil]
      rfl
    | cons m history ih =>
      intro n i hi
      cases i with
      | zero =>
        rw [modify_zero_cons, zipIdx_cons, zipIdx_cons, flatMap_cons,
          flatMap_cons, map_append, results_rewrite, map_map, map_map]
        congr 1
        · refine map_congr_left fun r _ => ?_
          simp only [Function.comp_apply, ElisionTarget.rewrite, ToolResult.rewrite, ← hi, Nat.add_zero,
            true_and]
          split_ifs <;> rfl
        · -- The messages behind have greater indices.
          refine (hkept _ fun e he => ?_).symm
          obtain ⟨p, hp, hmem⟩ := mem_flatMap.1 he
          obtain ⟨r, -, rfl⟩ := mem_map.1 hmem
          have hle := le_snd_of_mem_zipIdx hp
          dsimp only
          omega
      | succ i =>
        rw [modify_succ_cons, zipIdx_cons, zipIdx_cons, flatMap_cons, flatMap_cons,
          map_append, ih (n + 1) i (by omega), hkept (m.results.map fun r => (n, r))]
        intro e he
        obtain ⟨r, -, rfl⟩ := mem_map.1 he
        dsimp only
        omega
  exact hfrom 0 t.historyIndex (Nat.zero_add _)

theorem resultLocs_applyPlanDirect (history : List Message) (plan : DedupPlan) :
    resultLocs (applyPlanDirect history plan) =
      plan.targets.foldl (fun locs t => locs.map t.rewrite) (resultLocs history) := by
  obtain ⟨targets⟩ := plan
  unfold applyPlanDirect
  dsimp only
  induction targets generalizing history with
  | nil => rfl
  | cons t targets ih => rw [foldl_cons, foldl_cons, ih, resultLocs_modify]

/-! ## One exchange -/

/-- The target names one of the results, with its body. -/
def ElisionTarget.Names (t : ElisionTarget) (locs : List (Nat × ToolResult)) : Prop :=
  ∃ r, (t.historyIndex, r) ∈ locs ∧ r.call = t.targetCallId ∧ r.body = t.currentBody

/-- Where the results stand: the message and the id of each. -/
def resultKeys (locs : List (Nat × ToolResult)) : List (Nat × Text) := locs.map fun e => (e.1, e.2.call)

def ElisionTarget.key (t : ElisionTarget) : Nat × Text := (t.historyIndex, t.targetCallId)

section Exchange

variable {count : Text → Nat} {t : ElisionTarget} {locs : List (Nat × ToolResult)}

theorem ElisionTarget.rewrite_of_ne {e : Nat × ToolResult} (h : (e.1, e.2.call) ≠ t.key) :
    t.rewrite e = e :=
  if_neg fun hand => h (Prod.ext hand.1 hand.2)

theorem resultKeys_map_rewrite (t : ElisionTarget) (locs : List (Nat × ToolResult)) :
    resultKeys (locs.map t.rewrite) = resultKeys locs := by
  rw [resultKeys, map_map]
  refine map_congr_left fun e _ => ?_
  rw [Function.comp_apply, ElisionTarget.rewrite]
  split_ifs <;> rfl

/-- One target exchanges one body for its replacement. -/
theorem sum_map_rewrite (hsole : (resultKeys locs).count t.key ≤ 1) (hnames : t.Names locs) :
    ((locs.map t.rewrite).map fun e => count e.2.body).sum + count t.currentBody =
      (locs.map fun e => count e.2.body).sum + count t.replacementBody := by
  obtain ⟨r, hmem, hcall, hbody⟩ := hnames
  obtain ⟨front, back, rfl⟩ := append_of_mem hmem
  have hkey : (t.historyIndex, r.call) = t.key := by rw [hcall, ElisionTarget.key]
  -- No other result stands there.
  have hne : ∀ e ∈ front ++ back, (e.1, e.2.call) ≠ t.key := by
    intro e he heq
    have hpos : 0 < (resultKeys (front ++ back)).count t.key :=
      count_pos_iff.2 (heq ▸ mem_map_of_mem he)
    rw [resultKeys, map_append, map_cons, hkey, count_append, count_cons_self] at hsole
    rw [resultKeys, map_append, count_append] at hpos
    omega
  have hkept : ∀ l : List (Nat × ToolResult), l ⊆ front ++ back → l.map t.rewrite = l := by
    intro l hl
    have hid := map_congr_left (f := t.rewrite) (g := id) fun e he => t.rewrite_of_ne (hne e (hl he))
    rw [hid, map_id]
  have hself : t.rewrite (t.historyIndex, r) =
      (t.historyIndex, { r with content := [.text t.replacementBody] }) := if_pos ⟨rfl, hcall⟩
  have hnew : (ToolResult.body { r with content := [.text t.replacementBody] }) = t.replacementBody :=
    append_nil _
  rw [map_append, map_cons, hkept front (subset_append_left ..),
    hkept back (subset_append_right ..), hself]
  simp only [map_append, map_cons, sum_append, sum_cons, hnew, hbody]
  omega

/-- A target still names its result behind the exchange of another one. -/
theorem ElisionTarget.Names.map_rewrite {t' : ElisionTarget} (h : t'.Names locs)
    (hne : t'.key ≠ t.key) : t'.Names (locs.map t.rewrite) := by
  obtain ⟨r, hmem, hcall, hbody⟩ := h
  refine ⟨r, mem_map.2 ⟨_, hmem, t.rewrite_of_ne ?_⟩, hcall, hbody⟩
  rw [hcall]
  exact hne

/-- All targets exchange their bodies for their replacements. -/
theorem sum_foldl_rewrite {targets : List ElisionTarget}
    (hsole : ∀ t ∈ targets, (resultKeys locs).count t.key ≤ 1)
    (hdistinct : (targets.map ElisionTarget.key).Nodup) (hnames : ∀ t ∈ targets, t.Names locs) :
    ((targets.foldl (fun locs t => locs.map t.rewrite) locs).map fun e => count e.2.body).sum +
        (targets.map fun t => count t.currentBody).sum =
      (locs.map fun e => count e.2.body).sum + (targets.map fun t => count t.replacementBody).sum := by
  induction targets generalizing locs with
  | nil => rfl
  | cons t targets ih =>
    obtain ⟨hfresh, hdistinct⟩ := nodup_cons.1 hdistinct
    obtain ⟨hnamed, hnames⟩ := forall_mem_cons.1 hnames
    obtain ⟨halone, hsole⟩ := forall_mem_cons.1 hsole
    have hone := @sum_map_rewrite count t locs halone hnamed
    have hrest := @ih (locs.map t.rewrite) (by rwa [resultKeys_map_rewrite]) hdistinct fun t' ht' =>
      (hnames t' ht').map_rewrite fun heq => hfresh (heq ▸ mem_map_of_mem ht')
    rw [foldl_cons, map_cons, map_cons, sum_cons, sum_cons]
    omega

end Exchange

/-! ## The targets of a plan -/

section Drawn

variable {α β γ : Type} {R : α → β → Prop} {l : List α} {l' : List β}

theorem exists_of_drawn (h : List.SublistForall₂ R l l') {a : α} (ha : a ∈ l) : ∃ b ∈ l', R a b := by
  induction h with
  | nil => cases ha
  | cons hab _ ih =>
    obtain rfl | ha := mem_cons.1 ha
    · exact ⟨_, mem_cons_self, hab⟩
    · obtain ⟨b, hb, hR⟩ := ih ha
      exact ⟨b, mem_cons_of_mem _ hb, hR⟩
  | cons_right _ ih =>
    obtain ⟨b, hb, hR⟩ := ih ha
    exact ⟨b, mem_cons_of_mem _ hb, hR⟩

theorem map_sublist_of_drawn {f : α → γ} {g : β → γ} (h : List.SublistForall₂ R l l')
    (hR : ∀ a b, R a b → f a = g b) : (l.map f).Sublist (l'.map g) := by
  induction h with
  | nil => exact nil_sublist _
  | cons hab _ ih =>
    rw [map_cons, map_cons, hR _ _ hab]
    exact ih.cons_cons _
  | cons_right _ ih => exact ih.cons _

theorem drawn_filterMap {f : β → Option α} (hR : ∀ a b, f b = some a → R a b) (l' : List β) :
    List.SublistForall₂ R (l'.filterMap f) l' := by
  induction l' with
  | nil => exact .nil
  | cons b l' ih =>
    cases hb : f b with
    | none =>
      rw [filterMap_cons_none hb]
      exact .cons_right ih
    | some a =>
      rw [filterMap_cons_some hb]
      exact .cons (hR a b hb) ih

theorem drawn_trans {S : β → γ → Prop} {Q : α → γ → Prop} {l'' : List γ} (h : List.SublistForall₂ R l l')
    (h' : List.SublistForall₂ S l' l'') (hQ : ∀ a b c, R a b → S b c → Q a c) :
    List.SublistForall₂ Q l l'' := by
  induction h' generalizing l with
  | nil =>
    cases h
    exact .nil
  | cons hS _ ih =>
    cases h with
    | nil => exact .nil
    | cons hR h => exact .cons (hQ _ _ _ hR hS) (ih h)
    | cons_right h => exact .cons_right (ih h)
  | cons_right _ ih => exact .cons_right (ih h)

end Drawn

section Targets

/-- The target is made of a result at a place. -/
structure ElisionTarget.MadeOf (t : ElisionTarget) (index : Nat) (call body : Text) : Prop where
  index_eq : t.historyIndex = index
  call_eq : t.targetCallId = call
  body_eq : t.currentBody = body

theorem drawn_exactTargets (locs : List ResultLoc) :
    List.SublistForall₂ (fun t loc => t.MadeOf loc.historyIndex loc.callId loc.body) (exactTargets locs)
      locs := by
  induction locs with
  | nil => exact .nil
  | cons loc rest ih =>
    rw [exactTargets]
    split
    · exact .cons_right ih
    · split_ifs
      · exact .cons_right ih
      · exact .cons ⟨rfl, rfl, rfl⟩ ih

theorem drawn_overlapTargets (locs : List ReadLoc) :
    List.SublistForall₂ (fun t loc => t.MadeOf loc.historyIndex loc.callId loc.body) (overlapTargets locs)
      locs := by
  induction locs with
  | nil => exact .nil
  | cons older newer ih =>
    rw [overlapTargets]
    split_ifs
    · exact .cons_right ih
    · split
      · split_ifs
        · exact .cons_right ih
        · exact .cons ⟨rfl, rfl, rfl⟩ ih
      · exact .cons_right ih

variable {render : Json → Text} {history : List Message}

theorem drawn_snapshotResults :
    List.SublistForall₂ (fun loc e => loc.historyIndex = e.1 ∧ loc.callId = e.2.call ∧ loc.body = e.2.body)
      (snapshotResults render history) (resultLocs history) := by
  refine drawn_filterMap (fun loc e h => ?_) (resultLocs history)
  split at h
  · cases h
  · split_ifs at h
    cases h
    exact ⟨rfl, rfl, rfl⟩

theorem drawn_readResults :
    List.SublistForall₂ (fun loc e => loc.historyIndex = e.1 ∧ loc.callId = e.2.call ∧ loc.body = e.2.body)
      (readResults history) (resultLocs history) := by
  refine drawn_filterMap (fun loc e h => ?_) (resultLocs history)
  split at h
  · cases h
  · split_ifs at h
    obtain ⟨range, -, rfl⟩ := Option.map_eq_some_iff.1 h
    exact ⟨rfl, rfl, rfl⟩

/-- The targets of the two passes, in the order of the results they are made of. -/
theorem drawn_passes :
    List.SublistForall₂ (fun t e => t.MadeOf e.1 e.2.call e.2.body)
        (exactTargets (snapshotResults render history)) (resultLocs history) ∧
      List.SublistForall₂ (fun t e => t.MadeOf e.1 e.2.call e.2.body)
        (overlapTargets (readResults history)) (resultLocs history) := by
  refine ⟨drawn_trans (drawn_exactTargets _) drawn_snapshotResults ?_,
    drawn_trans (drawn_overlapTargets _) drawn_readResults ?_⟩
  all_goals
    rintro t loc e ⟨hindex, hcall, hbody⟩ ⟨hi, hc, hb⟩
    exact ⟨hindex.trans hi, hcall.trans hc, hbody.trans hb⟩

theorem names_of_drawn {targets : List ElisionTarget} {locs : List (Nat × ToolResult)}
    (h : List.SublistForall₂ (fun t e => t.MadeOf e.1 e.2.call e.2.body) targets locs) :
    ∀ t ∈ targets, t.Names locs := by
  intro t ht
  obtain ⟨e, he, hindex, hcall, hbody⟩ := exists_of_drawn h ht
  exact ⟨e.2, by rwa [hindex], hcall.symm, hbody.symm⟩

/-- The targets before they are priced and sorted. -/
def plannedTargets (render : Json → Text) (history : List Message) : List ElisionTarget :=
  exactTargets (snapshotResults render history) ++
    (overlapTargets (readResults history)).filter fun t =>
      !((exactTargets (snapshotResults render history)).map targetCallId).contains t.targetCallId

theorem names_plannedTargets : ∀ t ∈ plannedTargets render history, t.Names (resultLocs history) := by
  intro t ht
  rcases mem_append.1 ht with ht | ht
  · exact names_of_drawn drawn_passes.1 t ht
  · exact names_of_drawn (@drawn_passes render history).2 t (mem_of_mem_filter ht)

/-- If no other result stands where one is targeted, it is not the target of both passes, nor twice
    of one. -/
theorem nodup_plannedTargets
    (hsole : ∀ t ∈ plannedTargets render history, (resultKeys (resultLocs history)).count t.key ≤ 1) :
    ((plannedTargets render history).map ElisionTarget.key).Nodup := by
  have honce : ∀ targets : List ElisionTarget, targets ⊆ plannedTargets render history →
      (targets.map ElisionTarget.key).Sublist (resultKeys (resultLocs history)) →
      (targets.map ElisionTarget.key).Nodup := by
    refine fun targets hsub hdrawn => nodup_iff_count_le_one.2 fun key => ?_
    by_cases hkey : key ∈ targets.map ElisionTarget.key
    · obtain ⟨t, ht, rfl⟩ := mem_map.1 hkey
      exact (hdrawn.count_le _).trans (hsole t (hsub ht))
    · rw [count_eq_zero_of_not_mem hkey]
      exact Nat.zero_le 1
  have hkey : ∀ (t : ElisionTarget) (e : Nat × ToolResult), t.MadeOf e.1 e.2.call e.2.body →
      t.key = (e.1, e.2.call) := fun t e h => Prod.ext h.index_eq h.call_eq
  have hexact := map_sublist_of_drawn (@drawn_passes render history).1 hkey
  have hoverlap := map_sublist_of_drawn (@drawn_passes render history).2 hkey
  rw [plannedTargets, map_append]
  refine List.Nodup.append (honce _ (subset_append_left ..) hexact)
    (honce _ (subset_append_right ..) ((filter_sublist.map _).trans hoverlap)) ?_
  intro key hkey hother
  obtain ⟨t, ht, rfl⟩ := mem_map.1 hother
  have hnot := (mem_filter.1 ht).2
  rw [Bool.not_eq_true', contains_eq_mem, decide_eq_false_iff_not] at hnot
  obtain ⟨t', ht', heq⟩ := mem_map.1 hkey
  exact hnot (mem_map.2 ⟨t', ht', congrArg Prod.snd heq⟩)

end Targets

/-! ## Which results are targeted -/

/-- The snapshot has a later one of an identical call, and neither it nor the newest such is already
    a marker. -/
def Superseded (locs : List ResultLoc) (loc : ResultLoc) : Prop :=
  loc.elided = false ∧ ∃ later newest, (loc :: later) <:+ locs ∧
    (later.filter fun other => other.key = loc.key).getLast? = some newest ∧ newest.elided = false

/-- The read has lines in later full reads of its file, and stands as the body without them. -/
def Trimmed (locs : List ReadLoc) (loc : ReadLoc) (rest : Text) : Prop :=
  loc.alreadyElided = false ∧ ∃ later, (loc :: later) <:+ locs ∧ coveringReads loc later ≠ [] ∧
    rewriteElidingCovered loc.body (coveringReads loc later) = some rest ∧ rest ≠ loc.body

def supersededMarker : Text := Elision.markerText ⟨[], .snapshotSuperseded⟩

theorem superseded_cons {locs : List ResultLoc} {first loc : ResultLoc} :
    Superseded (first :: locs) loc ↔
      (loc = first ∧ loc.elided = false ∧ ∃ newest,
        (locs.filter fun other => other.key = loc.key).getLast? = some newest ∧ newest.elided = false) ∨
      Superseded locs loc := by
  constructor
  · rintro ⟨hfull, later, newest, hsuffix, hlast, hnewest⟩
    rcases suffix_cons_iff.1 hsuffix with heq | hsuffix
    · obtain ⟨rfl, rfl⟩ := List.cons.inj heq
      exact .inl ⟨rfl, hfull, newest, hlast, hnewest⟩
    · exact .inr ⟨hfull, later, newest, hsuffix, hlast, hnewest⟩
  · rintro (⟨rfl, hfull, newest, hlast, hnewest⟩ | ⟨hfull, later, newest, hsuffix, hlast, hnewest⟩)
    · exact ⟨hfull, locs, newest, suffix_refl _, hlast, hnewest⟩
    · exact ⟨hfull, later, newest, hsuffix.trans (suffix_cons ..), hlast, hnewest⟩

theorem trimmed_cons {locs : List ReadLoc} {first loc : ReadLoc} {rest : Text} :
    Trimmed (first :: locs) loc rest ↔
      (loc = first ∧ loc.alreadyElided = false ∧ coveringReads loc locs ≠ [] ∧
        rewriteElidingCovered loc.body (coveringReads loc locs) = some rest ∧ rest ≠ loc.body) ∨
      Trimmed locs loc rest := by
  constructor
  · rintro ⟨hfull, later, hsuffix, htrim⟩
    rcases suffix_cons_iff.1 hsuffix with heq | hsuffix
    · obtain ⟨rfl, rfl⟩ := List.cons.inj heq
      exact .inl ⟨rfl, hfull, htrim⟩
    · exact .inr ⟨hfull, later, hsuffix, htrim⟩
  · rintro (⟨rfl, hfull, htrim⟩ | ⟨hfull, later, hsuffix, htrim⟩)
    · exact ⟨hfull, locs, suffix_refl _, htrim⟩
    · exact ⟨hfull, later, hsuffix.trans (suffix_cons ..), htrim⟩

variable {P : Nat × Text → Text → Text → Prop}

/-- A statement about the place, the body and the replacement of every target of a pass is one about
    the results it finds. -/
theorem forall_exactTargets (locs : List ResultLoc) :
    (∀ t ∈ exactTargets locs, P t.key t.currentBody t.replacementBody) ↔
      ∀ loc, Superseded locs loc → P (loc.historyIndex, loc.callId) loc.body supersededMarker := by
  induction locs with
  | nil =>
    refine ⟨fun _ loc h => ?_, fun _ t ht => (not_mem_nil ht).elim⟩
    obtain ⟨-, later, newest, hsuffix, -⟩ := h
    cases suffix_nil.1 hsuffix
  | cons first locs ih =>
    simp only [superseded_cons, or_imp, forall_and, ← ih, and_imp, forall_eq]
    rw [exactTargets]
    cases hlast : (locs.filter fun other => other.key = first.key).getLast? with
    | none => simp
    | some newest =>
      have hmarker : ∀ id, Elision.markerText ⟨id, .snapshotSuperseded⟩ = supersededMarker := fun id => rfl
      cases hnewest : newest.elided <;> cases hfull : first.elided <;>
        simp [hnewest, replacementBody, ElisionTarget.key, hmarker]

theorem forall_overlapTargets (locs : List ReadLoc) :
    (∀ t ∈ overlapTargets locs, P t.key t.currentBody t.replacementBody) ↔
      ∀ loc rest, Trimmed locs loc rest → P (loc.historyIndex, loc.callId) loc.body rest := by
  induction locs with
  | nil =>
    refine ⟨fun _ loc rest h => ?_, fun _ t ht => (not_mem_nil ht).elim⟩
    obtain ⟨-, later, hsuffix, -⟩ := h
    cases suffix_nil.1 hsuffix
  | cons first locs ih =>
    simp only [trimmed_cons, or_imp, forall_and, ← ih, and_imp]
    rw [overlapTargets]
    cases hfull : first.alreadyElided with
    | true =>
      rw [if_pos rfl]
      refine ⟨fun h => ⟨fun loc rest heq hnot => ?_, h⟩, fun h => h.2⟩
      rw [heq, hfull] at hnot
      cases hnot
    | false =>
      rw [if_neg Bool.false_ne_true]
      cases hlast : (coveringReads first locs).getLast? with
      | none =>
        have hnone := List.getLast?_eq_none_iff.1 hlast
        refine ⟨fun h => ⟨fun loc rest heq _ hsome => ?_, h⟩, fun h => h.2⟩
        rw [heq] at hsome
        exact (hsome hnone).elim
      | some pointer =>
        have hsome : coveringReads first locs ≠ [] := fun h => by
          rw [h] at hlast
          cases hlast
        cases hrest : rewriteElidingCovered first.body (coveringReads first locs) with
        | none =>
          refine ⟨fun h => ⟨fun loc rest heq _ _ hloc => ?_, h⟩, fun h => h.2⟩
          rw [heq, hrest] at hloc
          cases hloc
        | some newBody =>
          dsimp only
          split_ifs with hsame
          · refine ⟨fun h => ⟨fun loc rest heq _ _ hloc hne => ?_, h⟩, fun h => h.2⟩
            rw [heq, hrest] at hloc
            cases hloc
            rw [heq] at hne
            exact (hne hsame).elim
          · rw [forall_mem_cons]
            refine and_congr_left fun _ => ⟨fun h loc rest heq _ _ hloc _ => ?_, fun h => ?_⟩
            · subst heq
              rw [hrest] at hloc
              cases hloc
              exact h
            · exact h first newBody rfl hfull hsome hrest hsame

/-- The results that get a new body: the superseded snapshots, and the trimmed reads among the
    others. -/
def Targeted (render : Json → Text) (history : List Message) (key : Nat × Text) (body rest : Text) :
    Prop :=
  (∃ loc, Superseded (snapshotResults render history) loc ∧ key = (loc.historyIndex, loc.callId) ∧
    body = loc.body ∧ rest = supersededMarker) ∨
  ∃ loc, Trimmed (readResults history) loc rest ∧ key = (loc.historyIndex, loc.callId) ∧
    body = loc.body ∧
    ∀ other, Superseded (snapshotResults render history) other → other.callId ≠ loc.callId

theorem forall_plannedTargets (render : Json → Text) (history : List Message) :
    (∀ t ∈ plannedTargets render history, P t.key t.currentBody t.replacementBody) ↔
      ∀ key body rest, Targeted render history key body rest → P key body rest := by
  have hother : ∀ id, id ∉ (exactTargets (snapshotResults render history)).map targetCallId ↔
      ∀ other, Superseded (snapshotResults render history) other → other.callId ≠ id := by
    intro id
    rw [← @forall_exactTargets (fun key _ _ => key.2 ≠ id), mem_map, not_exists]
    exact forall_congr' fun t => not_and
  have hsplit : (∀ key body rest, Targeted render history key body rest → P key body rest) ↔
      (∀ loc, Superseded (snapshotResults render history) loc →
        P (loc.historyIndex, loc.callId) loc.body supersededMarker) ∧
      ∀ loc rest, Trimmed (readResults history) loc rest →
        (∀ other, Superseded (snapshotResults render history) other → other.callId ≠ loc.callId) →
        P (loc.historyIndex, loc.callId) loc.body rest := by
    constructor
    · intro h
      exact ⟨fun loc hloc => h _ _ _ (.inl ⟨loc, hloc, rfl, rfl, rfl⟩),
        fun loc rest hloc hnot => h _ _ _ (.inr ⟨loc, hloc, rfl, rfl, hnot⟩)⟩
    · rintro ⟨hexact, hoverlap⟩ _ _ _ (⟨loc, hloc, rfl, rfl, rfl⟩ | ⟨loc, hloc, rfl, rfl, hnot⟩)
      · exact hexact loc hloc
      · exact hoverlap loc _ hloc hnot
  rw [hsplit]
  simp only [plannedTargets, mem_append, or_imp, forall_and, mem_filter, Bool.not_eq_true',
    contains_eq_mem, decide_eq_false_iff_not, hother]
  refine and_congr (forall_exactTargets _) ?_
  rw [← @forall_overlapTargets (fun key body rest =>
    (∀ other, Superseded (snapshotResults render history) other → other.callId ≠ key.2) →
      P key body rest)]
  exact forall_congr' fun t => and_imp

/-! ## The savings -/

theorem sum_le_sum_sub_add {α : Type} (before after : α → Nat) (l : List α) :
    (l.map before).sum ≤ (l.map fun a => before a - after a).sum + (l.map after).sum := by
  induction l with
  | nil => exact Nat.le_refl 0
  | cons a l ih =>
    simp only [map_cons, sum_cons]
    omega

/-- Exchanges floored at zero add up to the exchange of the sums exactly if none is below zero. -/
theorem sum_sub_add_eq_iff {α : Type} (before after : α → Nat) (l : List α) :
    (l.map fun a => before a - after a).sum + (l.map after).sum = (l.map before).sum ↔
      ∀ a ∈ l, after a ≤ before a := by
  induction l with
  | nil => simp
  | cons a l ih =>
    have hle := sum_le_sum_sub_add before after l
    rw [forall_mem_cons, ← ih]
    simp only [map_cons, sum_cons]
    omega

/-- A target with its savings. -/
def ElisionTarget.priced (count : Text → Nat) (t : ElisionTarget) : ElisionTarget :=
  { t with tokensSaved := cachedTokensSaved count t }

theorem targets_dedupPlan_perm (render : Json → Text) (count : Text → Nat) (history : List Message) :
    (dedupPlan render count history).targets.Perm
      ((plannedTargets render history).map (priced count)) :=
  perm_insertionSort ..

section Totals

variable (render : Json → Text) (count : Text → Nat) (history : List Message)

theorem tokensSaved_dedupPlan :
    (dedupPlan render count history).tokensSaved =
      ((plannedTargets render history).map fun t => count t.currentBody - count t.replacementBody).sum := by
  rw [DedupPlan.tokensSaved, ((targets_dedupPlan_perm render count history).map _).sum_nat, map_map]
  rfl

/-- The tokens before and behind a plan differ by the exchanges of its targets. -/
theorem bodyTokens_applyPlanDirect
    (hsole : ∀ t ∈ plannedTargets render history, (resultKeys (resultLocs history)).count t.key ≤ 1) :
    bodyTokens count (applyPlanDirect history (dedupPlan render count history)) +
        ((plannedTargets render history).map fun t => count t.currentBody).sum =
      bodyTokens count history +
        ((plannedTargets render history).map fun t => count t.replacementBody).sum := by
  have hperm := targets_dedupPlan_perm render count history
  have hdistinct : ((dedupPlan render count history).targets.map ElisionTarget.key).Nodup := by
    rw [(hperm.map _).nodup_iff, map_map]
    exact nodup_plannedTargets hsole
  have hplanned : ∀ t ∈ (dedupPlan render count history).targets,
      (resultKeys (resultLocs history)).count t.key ≤ 1 ∧ t.Names (resultLocs history) := by
    intro t ht
    obtain ⟨t, hmem, rfl⟩ := mem_map.1 (hperm.mem_iff.1 ht)
    exact ⟨hsole t hmem, names_plannedTargets t hmem⟩
  have hsum := @sum_foldl_rewrite count _ _ (fun t ht => (hplanned t ht).1) hdistinct fun t ht =>
    (hplanned t ht).2
  rw [(hperm.map fun t => count t.currentBody).sum_nat, (hperm.map fun t => count t.replacementBody).sum_nat,
    map_map, map_map, ← resultLocs_applyPlanDirect, ← bodyTokens_eq, ← bodyTokens_eq] at hsum
  exact hsum

end Totals

/-- No other result stands in the message under the id. -/
def Sole (history : List Message) (key : Nat × Text) : Prop :=
  (resultKeys (resultLocs history)).count key ≤ 1

/-- If no targeted result shares its message and id with another one, the reported savings are what
    the plan takes off the history exactly if no body gets longer: no superseded snapshot is shorter
    than the marker, and no trimmed read shorter than its rest. -/
theorem tokensSaved_real_iff (render : Json → Text) (count : Text → Nat) (history : List Message)
    (hsole : ∀ key body rest, Targeted render history key body rest → Sole history key) :
    ((dedupPlan render count history).tokensSaved =
          bodyTokens count history - bodyTokens count (pruneHistory render count history) ∧
        bodyTokens count (pruneHistory render count history) ≤ bodyTokens count history) ↔
      ∀ key body rest, Targeted render history key body rest → count rest ≤ count body := by
  rw [← @forall_plannedTargets (fun key _ _ => Sole history key)] at hsole
  rw [← @forall_plannedTargets (fun _ body rest => count rest ≤ count body),
    ← sum_sub_add_eq_iff (fun t : ElisionTarget => count t.currentBody), ← tokensSaved_dedupPlan]
  have htotal := bodyTokens_applyPlanDirect render count history hsole
  unfold pruneHistory
  omega

/-- One call made twice, with a short result. -/
def repeatedCode : List Message :=
  [.assistant none [.toolCall ⟨"a".toList, none, "code".toList, .null⟩,
      .toolCall ⟨"b".toList, none, "code".toList, .null⟩],
    .user [.toolResult ⟨"a".toList, none, "code".toList, [.text "ok".toList]⟩,
      .toolResult ⟨"b".toList, none, "code".toList, [.text "ok".toList]⟩]]

theorem tokensSaved_real_flat :
    (dedupPlan (fun _ => []) (fun _ => 1) repeatedCode).tokensSaved =
        bodyTokens (fun _ => 1) repeatedCode -
          bodyTokens (fun _ => 1) (pruneHistory (fun _ => []) (fun _ => 1) repeatedCode) ∧
      bodyTokens (fun _ => 1) (pruneHistory (fun _ => []) (fun _ => 1) repeatedCode) ≤
        bodyTokens (fun _ => 1) repeatedCode :=
  (tokensSaved_real_iff (fun _ => []) (fun _ => 1) repeatedCode
    ((@forall_plannedTargets (fun key _ _ => Sole repeatedCode key) _ _).1
      (by unfold Sole; decide +kernel))).2 fun _ _ _ _ => Nat.le_refl 1

/-- A two-character result becomes a marker of many: nothing is reported as saved, and the history
    has grown. -/
theorem marker_outgrows_body :
    (repeatedCode.flatMap Message.callIds).Nodup ∧
      (dedupPlan (fun _ => []) List.length repeatedCode).tokensSaved = 0 ∧
      bodyTokens List.length repeatedCode <
        bodyTokens List.length (pruneHistory (fun _ => []) List.length repeatedCode) := by
  decide +kernel

end FlyCockpit.Engine
