import TurboOctopus.Event.Feed
/-!
# What a feed delivers

`Inv` holds in every state of a run: of the cases, a `Send` has served exactly
those that are no longer active, and removals keep the border between the two.
-/
namespace TurboOctopus.Event

open Lib List Option

variable {C : Type} [DecidableEq C]

/-! ## Every state of a run -/

/-- What a `Send` in progress has done: of the cases, it has served exactly those
that are no longer active. -/
def Feed.Serving (f : Feed C) : Prop :=
  match f.sending with
  | none => True
  | some ⟨.locked, _, nsent⟩ => (∀ d ∈ f.log, d.1 ≠ f.sends) ∧ nsent = 0
  | some ⟨_, active, nsent⟩ =>
    active ≤ f.sendCases.length ∧ (∀ i c, f.sendCases[i]? = some c → ((f.sends, c) ∈ f.log ↔ active ≤ i)) ∧
      nsent = f.log.countP fun d => d.1 = f.sends

structure Feed.Inv (f : Feed C) : Prop where
  distinct : (f.sendCases ++ f.inbox).Nodup
  leaving : ∀ c ∈ f.leaving, c ∈ f.sendCases
  leaving_once : f.leaving.Nodup
  log_once : f.log.Nodup
  log_le : ∀ d ∈ f.log, d.1 ≤ f.sends
  log_ordered : f.log.Pairwise fun d e => d.1 ≤ e.1
  returned : ∀ r ∈ f.returned, (r.2 = f.log.countP fun d => d.1 = r.1) ∧ r.1 ≤ f.sends ∧ (f.sending.isSome → r.1 ≠ f.sends)
  serving : f.Serving

namespace Feed

variable {f g : Feed C} {x : Sending} {j : Nat} {phase : Phase} {c : C}

section
omit [DecidableEq C]

lemma Inv.sendCases_nodup (h : f.Inv) : f.sendCases.Nodup := (nodup_append.1 h.distinct).1

lemma serving_iff {active nsent : Nat} (hphase : phase ≠ .locked) (hx : f.sending = some ⟨phase, active, nsent⟩) :
    f.Serving ↔ active ≤ f.sendCases.length ∧ (∀ i c, f.sendCases[i]? = some c → ((f.sends, c) ∈ f.log ↔ active ≤ i)) ∧
      nsent = f.log.countP fun d => d.1 = f.sends := by
  unfold Serving
  rw [hx]
  cases phase with
  | locked => exact absurd rfl hphase
  | scan i => exact Iff.rfl
  | select => exact Iff.rfl

/-- The `Send` goes on to another case, or to its `select`. -/
lemma Inv.advance (h : f.Inv) {last : Phase} {active nsent : Nat} (hx : f.sending = some ⟨last, active, nsent⟩)
    (hlast : last ≠ .locked) (hphase : phase ≠ .locked) : Inv { f with sending := some ⟨phase, active, nsent⟩ } := by
  have hreturned := h.returned
  rw [hx] at hreturned
  exact { h with returned := hreturned, serving := (serving_iff hphase rfl).2 ((serving_iff hlast hx).1 h.serving) }

lemma Inv.deliver (h : f.Inv) (hx : f.sending = some x) (hphase : x.phase ≠ .locked) (hnext : phase ≠ .locked)
    (hj : j < x.active) (hg : f.deliver x j phase = some g) : g.Inv := by
  simp only [Feed.deliver, map_eq_some_iff] at hg
  obtain ⟨c, hc, rfl⟩ := hg
  obtain ⟨xphase, active, nsent⟩ := x
  obtain ⟨hlen, hserved, hnsent⟩ := (serving_iff hphase hx).1 h.serving
  have hfresh : (f.sends, c) ∉ f.log := by
    rw [hserved j c hc]
    exact Nat.not_le.2 hj
  have hperm := deactivate_perm f.sendCases j (active - 1)
  dsimp only at hj
  refine ⟨?_, ?_, h.leaving_once, ?_, ?_, ?_, ?_, ?_⟩
  · exact (hperm.append_right _).nodup_iff.2 h.distinct
  · exact fun d hd => hperm.mem_iff.2 (h.leaving d hd)
  · refine nodup_append.2 ⟨h.log_once, nodup_singleton _, fun d hd e he hde => ?_⟩
    rw [mem_singleton] at he
    exact hfresh (he ▸ hde ▸ hd)
  · exact forall_mem_append.2 ⟨h.log_le, forall_mem_singleton.2 (Nat.le_refl _)⟩
  · exact pairwise_append.2 ⟨h.log_ordered, pairwise_singleton _ _, fun d hd => forall_mem_singleton.2 (h.log_le d hd)⟩
  · intro r hr
    obtain ⟨hcount, hle, hother⟩ := h.returned r hr
    have hne : r.1 ≠ f.sends := hother (by rw [hx]; rfl)
    refine ⟨?_, hle, fun _ => hne⟩
    simpa [countP_append, hne.symm] using hcount
  · have hserved' : ∀ i d, (deactivate f.sendCases j (active - 1))[i]? = some d →
        ((f.sends, d) ∈ f.log ++ [(f.sends, c)] ↔ active - 1 ≤ i) := by
      intro i d hd
      -- the swap has put the served case first among the inactive ones
      rcases getElem_deactivate (by omega) (by omega) hc hd with ⟨rfl, rfl⟩ | ⟨hne, k, hkj, hk, hside⟩
      · simp
      · have hdc : d ≠ c := fun hdc => hkj (getElem_inj h.sendCases_nodup hk (hdc ▸ hc))
        simp only [mem_append, mem_singleton, Prod.mk.injEq, hdc, and_false, or_false, hserved k d hk]
        omega
    refine (serving_iff hnext rfl).2 ⟨?_, hserved', by simp [countP_append, hnsent]⟩
    rw [hperm.length_eq]
    omega

end

lemma Inv.remove (h : f.Inv) {index : Nat} (hi : find f.sendCases c = some index) {y : Option Sending}
    (hsome : y.isSome → f.sending.isSome)
    (hserving : Serving { f with sendCases := delete f.sendCases index, leaving := f.leaving.erase c, sending := y }) :
    Inv { f with sendCases := delete f.sendCases index, leaving := f.leaving.erase c, sending := y } := by
  have hat := find_some hi
  refine ⟨?_, fun d hd => ?_, h.leaving_once.erase c, h.log_once, h.log_le, h.log_ordered, fun r hr => ?_, hserving⟩
  · exact h.distinct.sublist ((eraseIdx_sublist _ _).append_right _)
  · obtain ⟨hne, hd⟩ := (h.leaving_once.mem_erase_iff).1 hd
    exact mem_delete hat (h.leaving d hd) hne
  · obtain ⟨hcount, hle, hother⟩ := h.returned r hr
    exact ⟨hcount, hle, fun hs => hother (hsome hs)⟩

/-- What a step turns a feed into. -/
inductive Turns (f : Feed C) : Step C → Feed C → Prop
  | subscribe {c : C} (hcases : c ∉ f.sendCases) (hinbox : c ∉ f.inbox) : f.Turns (.subscribe c) { f with inbox := f.inbox ++ [c] }
  | lock (hx : f.sending = none) : f.Turns .lock { f with sending := some ⟨.locked, 0, 0⟩, sends := f.sends + 1 }
  | merge {active nsent : Nat} (hx : f.sending = some ⟨.locked, active, nsent⟩) : f.Turns .merge { f with
      sendCases := f.sendCases ++ f.inbox
      inbox := []
      sending := some ⟨.scan 0, (f.sendCases ++ f.inbox).length, nsent⟩ }
  | deliver {e : Step C} {x : Sending} {j : Nat} {phase : Phase} {g : Feed C} (hx : f.sending = some x)
    (hphase : x.phase ≠ .locked) (hnext : phase ≠ .locked) (hj : j < x.active) (hg : f.deliver x j phase = some g) : f.Turns e g
  | advance {e : Step C} {last phase : Phase} {active nsent : Nat} (hx : f.sending = some ⟨last, active, nsent⟩)
    (hlast : last ≠ .locked) (hphase : phase ≠ .locked) : f.Turns e { f with sending := some ⟨phase, active, nsent⟩ }
  | ended {i nsent : Nat} (hx : f.sending = some ⟨.scan i, 0, nsent⟩) :
    f.Turns .scanned { f with sending := none, returned := f.returned ++ [(f.sends, nsent)] }
  | unsubscribe {c : C} {index : Nat} (hfind : find f.inbox c = some index) :
    f.Turns (.unsubscribe c) { f with inbox := delete f.inbox index }
  | leave {c : C} (hnew : c ∉ f.leaving) (hc : c ∈ f.sendCases) : f.Turns (.unsubscribe c) { f with leaving := c :: f.leaving }
  | removeSub {c : C} {active nsent index : Nat} (hx : f.sending = some ⟨.select, active, nsent⟩)
    (hfind : find f.sendCases c = some index) : f.Turns (.removeSub c) { f with
      sendCases := delete f.sendCases index
      leaving := f.leaving.erase c
      sending := some ⟨.scan 0, if index < active then active - 1 else active, nsent⟩ }
  | removeLocked {c : C} {index : Nat} (hx : f.sending = none) (hfind : find f.sendCases c = some index) :
    f.Turns (.removeLocked c) { f with sendCases := delete f.sendCases index, leaving := f.leaving.erase c }

lemma turns_of_step {e : Step C} (hg : f.step e = some g) : f.Turns e g := by
  cases e <;> simp only [Feed.step] at hg
  case trySend taken =>
    split at hg
    next hx =>
      split_ifs at hg with hi
      · exact .deliver hx (by simp) (by simp) hi hg
      · cases hg
        exact .advance hx (by simp) (by simp)
    · cases hg
  case choose j =>
    split at hg
    next hx =>
      split_ifs at hg with hj
      exact .deliver hx (by simp) (by simp) hj hg
    · cases hg
  all_goals grind [Turns]

lemma Inv.step (h : f.Inv) {e : Step C} (hg : f.step e = some g) : g.Inv := by
  cases turns_of_step hg with
  | subscribe hcases hinbox =>
    refine { h with distinct := ?_ }
    rw [← append_assoc, nodup_append]
    refine ⟨h.distinct, nodup_singleton _, fun d hd e he hde => ?_⟩
    rw [mem_singleton] at he
    subst hde he
    exact (mem_append.1 hd).elim hcases hinbox
  | lock =>
    have hlt : ∀ d ∈ f.log, d.1 ≠ f.sends + 1 := fun d hd => by
      have := h.log_le d hd
      omega
    refine { h with log_le := ?_, returned := ?_, serving := ⟨hlt, rfl⟩ }
    · exact fun d hd => Nat.le_succ_of_le (h.log_le d hd)
    · intro r hr
      obtain ⟨hcount, hle, -⟩ := h.returned r hr
      exact ⟨hcount, Nat.le_succ_of_le hle, fun _ => by dsimp only; omega⟩
  | merge hx =>
    have hserving := h.serving
    unfold Serving at hserving
    rw [hx] at hserving
    obtain ⟨hnone, rfl⟩ := hserving
    refine ⟨by simpa using h.distinct, fun c hc => mem_append_left _ (h.leaving c hc), h.leaving_once, h.log_once,
      h.log_le, h.log_ordered, fun r hr => ?_, ⟨Nat.le_refl _, fun i c hi => ?_, ?_⟩⟩
    · obtain ⟨hcount, hle, hother⟩ := h.returned r hr
      exact ⟨hcount, hle, fun _ => hother (by rw [hx]; rfl)⟩
    · -- nothing of this value is delivered yet, and every case is active
      obtain ⟨hlt, -⟩ := List.getElem?_eq_some_iff.1 hi
      exact ⟨fun hlog => absurd rfl (hnone _ hlog), fun hle => absurd hlt (Nat.not_lt.2 hle)⟩
    · symm
      rw [countP_eq_zero]
      intro d hd
      simpa using hnone d hd
  | deliver hx hphase hnext hj hg => exact h.deliver hx hphase hnext hj hg
  | advance hx hlast hphase => exact h.advance hx hlast hphase
  | ended hx =>
    refine { h with returned := fun r hr => ?_, serving := trivial }
    rcases mem_append.1 hr with hr | hr
    · obtain ⟨hcount, hle, -⟩ := h.returned r hr
      exact ⟨hcount, hle, by simp⟩
    · rw [mem_singleton.1 hr]
      exact ⟨((serving_iff (by simp) hx).1 h.serving).2.2, Nat.le_refl _, by simp⟩
  | unsubscribe => exact { h with distinct := h.distinct.sublist ((eraseIdx_sublist _ _).append_left _) }
  | leave hnew hc =>
    exact { h with leaving := forall_mem_cons.2 ⟨hc, h.leaving⟩, leaving_once := nodup_cons.2 ⟨hnew, h.leaving_once⟩ }
  | removeSub hx hfind =>
    obtain ⟨hlen, hserved, hnsent⟩ := (serving_iff (by simp) hx).1 h.serving
    refine h.remove hfind (fun _ => by rw [hx]; rfl) ⟨?_, fun i d hd => ?_, hnsent⟩
    · obtain ⟨hlt, -⟩ := List.getElem?_eq_some_iff.1 (find_some hfind)
      simp only [delete, length_eraseIdx, hlt, if_true]
      split <;> omega
    · -- the cases after the removed one move up, the border with them if it was active
      simp only [delete, List.getElem?_eraseIdx] at hd
      split at hd
      · rw [hserved i d hd]
        split <;> omega
      · rw [hserved (i + 1) d hd]
        split <;> omega
  | removeLocked hx hfind =>
    have hremove := h.remove hfind (y := none) (by simp) trivial
    rw [← hx] at hremove
    exact hremove

end Feed

lemma inv_of_steps {es : List (Step C)} {f : Feed C} (h : Steps empty es f) : f.Inv := by
  refine Run.inv Feed.Inv h ?_ fun f e g hf hg => hf.step hg
  exact ⟨.nil, by simp [empty], .nil, .nil, by simp [empty], .nil, by simp [empty], trivial⟩

/-! ## Who receives a value -/

/-- The numbers of the `Send`s whose values a channel has received, in order. -/
def Feed.received (f : Feed C) (c : C) : List Nat := (f.log.filter fun d => d.2 = c).map (·.1)

/-- Among the cases, or about to be. -/
def Feed.Present (f : Feed C) (c : C) : Prop :=
  c ∈ f.sendCases ∨ c ∈ f.inbox ∧ ∃ active nsent, f.sending = some ⟨.locked, active, nsent⟩

def Feed.Gone (f : Feed C) (c : C) : Prop := c ∉ f.sendCases ∧ c ∉ f.inbox

/-- The `Unsubscribe` of a channel returns. -/
def Feed.Unsubscribed (f : Feed C) (c : C) (e : Step C) : Prop :=
  e = .removeSub c ∨ e = .removeLocked c ∨ e = .unsubscribe c ∧ c ∈ f.inbox

namespace Feed

variable {f g : Feed C} {c : C} {e : Step C}

/-- What a step does to one channel: it stays as long as it is not removed, and
once gone it receives nothing before it is subscribed again. -/
lemma step_channel (hg : f.step e = some g) (c : C) :
    (¬ f.Unsubscribed c e → g.sends = f.sends → f.Present c → g.Present c) ∧
      (e ≠ .subscribe c → f.Gone c → g.Gone c ∧ g.received c = f.received c) := by
  cases turns_of_step hg with
  | @subscribe d =>
    refine ⟨fun _ _ hp => hp.imp_right (And.imp_left (mem_append_left _)), fun hne hgone => ⟨⟨hgone.1, ?_⟩, rfl⟩⟩
    have hdc : c ≠ d := fun h => hne (h ▸ rfl)
    simpa [hdc] using hgone.2
  | lock =>
    -- another `Send` begins
    exact ⟨fun _ hsends => absurd hsends (Nat.succ_ne_self _), fun _ hgone => ⟨hgone, rfl⟩⟩
  | merge =>
    refine ⟨fun _ _ hp => .inl (mem_append.2 (hp.imp_right And.left)), fun _ hgone => ⟨⟨?_, not_mem_nil⟩, rfl⟩⟩
    exact fun hc => (mem_append.1 hc).elim hgone.1 hgone.2
  | @deliver _ x j _ _ hx hphase _ _ hg =>
    simp only [Feed.deliver, map_eq_some_iff] at hg
    obtain ⟨d, hd, rfl⟩ := hg
    have hmem := (deactivate_perm f.sendCases j (x.active - 1)).mem_iff (a := c)
    constructor
    · rintro - - (hc | ⟨-, active, nsent, hlocked⟩)
      · exact .inl (hmem.2 hc)
      · rw [hx] at hlocked
        exact absurd (congrArg Sending.phase (Option.some.inj hlocked)) hphase
    · rintro - ⟨hcases, hinbox⟩
      have hne : d ≠ c := fun hdc => hcases (hdc ▸ mem_of_getElem? hd)
      exact ⟨⟨fun hc => hcases (hmem.1 hc), hinbox⟩, by simp [received, hne]⟩
  | advance hx hlast =>
    exact ⟨fun _ _ hp => hp.imp_right fun h => absurd h (by simp [hx, hlast]), fun _ hgone => ⟨hgone, rfl⟩⟩
  | ended hx => exact ⟨fun _ _ hp => hp.imp_right fun h => by simp [hx] at h, fun _ hgone => ⟨hgone, rfl⟩⟩
  | unsubscribe hfind =>
    refine ⟨fun hr _ hp => hp.imp_right (And.imp_left fun hc => mem_delete (find_some hfind) hc ?_), ?_⟩
    · exact fun hcd => hr (.inr (.inr ⟨hcd ▸ rfl, hc⟩))
    exact fun _ hgone => ⟨⟨hgone.1, fun hc => hgone.2 (mem_of_mem_eraseIdx hc)⟩, rfl⟩
  | leave => exact ⟨fun _ _ hp => hp, fun _ hgone => ⟨hgone, rfl⟩⟩
  | removeSub hx hfind =>
    refine ⟨fun hr _ hp => hp.imp (fun hc => mem_delete (find_some hfind) hc fun hcd => hr (.inl (hcd ▸ rfl))) fun h => ?_, ?_⟩
    · simp [hx] at h
    · exact fun _ hgone => ⟨⟨fun hc => hgone.1 (mem_of_mem_eraseIdx hc), hgone.2⟩, rfl⟩
  | removeLocked _ hfind =>
    refine ⟨fun hr _ hp => hp.imp_left fun hc => mem_delete (find_some hfind) hc fun hcd => hr (.inr (.inl (hcd ▸ rfl))), ?_⟩
    exact fun _ hgone => ⟨⟨fun hc => hgone.1 (mem_of_mem_eraseIdx hc), hgone.2⟩, rfl⟩

lemma sends_le_step (hg : f.step e = some g) : f.sends ≤ g.sends := by
  cases e <;> simp only [Feed.step, Feed.deliver] at hg <;> grind

end Feed

section Runs
variable {f g : Feed C} {c : C} {es : List (Step C)}

lemma sends_le_steps (h : Steps f es g) : f.sends ≤ g.sends := by
  induction h with
  | nil f => exact Nat.le_refl _
  | cons hstep _ ih => exact Nat.le_trans (Feed.sends_le_step hstep) ih

/-- The steps of a run in which the `Unsubscribe` of the channel does not return. -/
abbrev StepsWith (c : C) : Feed C → List (Step C) → Feed C → Prop :=
  Run fun f e g => f.step e = some g ∧ ¬ f.Unsubscribed c e

lemma StepsWith.steps (h : StepsWith c f es g) : Steps f es g := h.mono fun _ _ _ hstep => hstep.1

lemma present_steps (h : StepsWith c f es g) (hsends : g.sends = f.sends) (hc : f.Present c) : g.Present c := by
  induction h with
  | nil f => exact hc
  | cons hstep hrest ih =>
    have hle := Feed.sends_le_step hstep.1
    have hle' := sends_le_steps (StepsWith.steps hrest)
    exact ih (by omega) ((Feed.step_channel hstep.1 c).1 hstep.2 (by omega) hc)

lemma gone_steps (h : Steps f es g) (hnot : ∀ e ∈ es, e ≠ .subscribe c) (hc : f.Gone c) : g.received c = f.received c := by
  induction h with
  | nil f => rfl
  | cons hstep _ ih =>
    rw [forall_mem_cons] at hnot
    obtain ⟨hgone, hsame⟩ := (Feed.step_channel hstep c).2 hnot.1 hc
    exact (ih hnot.2 hgone).trans hsame

lemma Feed.Inv.gone (h : f.Inv) {e : Step C} (he : f.Unsubscribed c e) (hg : f.step e = some g) : g.Gone c := by
  obtain ⟨hcases, hinbox, hdisjoint⟩ := nodup_append.1 h.distinct
  have of_cases {index : Nat} (hfind : find f.sendCases c = some index) : c ∉ delete f.sendCases index ∧ c ∉ f.inbox :=
    ⟨not_mem_delete hcases (find_some hfind), fun hc => hdisjoint c (mem_of_getElem? (find_some hfind)) c hc rfl⟩
  rcases he with rfl | rfl | ⟨rfl, hc⟩
  case inl | inr.inl =>
    simp only [Feed.step] at hg
    split at hg
    next hfind =>
      simp only [ite_none_right_eq_some, Option.some.injEq] at hg
      obtain ⟨-, rfl⟩ := hg
      exact of_cases hfind
    · cases hg
  · simp only [Feed.step, ite_none_left_eq_some] at hg
    obtain ⟨-, hg⟩ := hg
    split at hg
    next hfind =>
      cases hg
      exact ⟨fun hcase => hdisjoint c hcase c hc rfl, not_mem_delete hinbox (find_some hfind)⟩
    next hfind => exact absurd hc (find_none hfind)

/-- When a `Send` ends, every case has its value, once. -/
lemma Feed.Inv.ended (h : f.Inv) (hg : f.step .scanned = some g) (hend : g.sending = none) (hc : f.Present c) :
    g.log.count (g.sends, c) = 1 := by
  simp only [Feed.step] at hg
  split at hg
  next i active nsent hx =>
    rw [ite_none_left_eq_some] at hg
    obtain ⟨-, hg⟩ := hg
    have hserving := (Feed.serving_iff (by simp) hx).1 h.serving
    have hcase : c ∈ f.sendCases := hc.resolve_right fun hlocked => by simp [hx] at hlocked
    obtain ⟨k, hk⟩ := mem_iff_getElem?.1 hcase
    split at hg
    next hzero =>
      cases hg
      exact count_eq_one_of_mem h.log_once ((hserving.2.1 k c hk).2 (by omega))
    · cases hg
      cases hend
  · cases hg

lemma Feed.Inv.received_ordered (h : f.Inv) (c : C) : (f.received c).Pairwise (· < ·) := by
  have hboth := (h.log_ordered.and h.log_once).filter fun d => d.2 = c
  rw [Feed.received, pairwise_map]
  refine hboth.imp_of_mem fun {d e} hd he hde => ?_
  have hd2 : d.2 = c := by simpa using (mem_filter.1 hd).2
  have he2 : e.2 = c := by simpa using (mem_filter.1 he).2
  exact Nat.lt_of_le_of_ne hde.1 fun h1 => hde.2 (Prod.ext h1 (hd2.trans he2.symm))

end Runs

end TurboOctopus.Event
