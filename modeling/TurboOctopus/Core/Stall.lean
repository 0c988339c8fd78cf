import Mathlib.Algebra.Ring.Int.Defs
import TurboOctopus.Core.Verified
/-!
# The verify manager against itself

The main loop waits until a task takes its message, and a task waits for room in `verifyCh`,
which only the main loop empties. A task reports its block again for every response that it
accepts, so the responses about one block can make the two wait for each other.
-/
namespace TurboOctopus.Core

open Lib List

variable {H κ π : Type} {v : VerifyFields H κ}

/-- The task sends on `verifyCh`. -/
def VerifyTask.marks (vt : VerifyTask H κ π) : Bool :=
  match vt.at_ with
  | .marking _ => true
  | _ => false

/-- What a step adds at most to the hashes in `verifyCh` and on their way there. -/
def VerifyAction.adds : VerifyAction H κ π → Int
  | .receive => 1
  | .takeVerified => -1
  | _ => 0

namespace VerifyManager

variable {allowInsecure : Bool} {s t : VerifyManager H κ π} {a : VerifyAction H κ π} {task : Nat}
  {vt : VerifyTask H κ π}

variable (s) in
/-- The main loop waits for a task that waits for the main loop. -/
def stuck : Bool :=
  match s.main with
  | .delivering _ task => (s.objects[task]?).any (·.marks) && maxForkHeight ≤ s.verifyCh.length
  | _ => false

variable (s) in
/-- The hashes in `verifyCh` and on their way there. -/
def waiting : Int := s.verifyCh.length + s.objects.countP VerifyTask.marks

variable (v s) in
/-- An entry of the map has a task that is not closed. -/
def Opened (e : κ × Nat) : Prop :=
  ∃ vt, s.objects[e.2]? = some vt ∧ v.hash vt.blockHeader = e.1 ∧ vt.terminal = false ∧ vt.at_ ≠ .returned

variable (v s) in
/-- Until the main loop returns, the tasks in the map are not closed, and it delivers to one of them. -/
structure Live : Prop where
  opened : s.main ≠ .returned → ∀ e ∈ s.tasks, s.Opened v e
  delivering : ∀ msg task, s.main = .delivering msg task → ∃ hash, (hash, task) ∈ s.tasks

lemma countP_set_marks {objects : List (VerifyTask H κ π)} (hvt : objects[task]? = some vt) (vt' : VerifyTask H κ π) :
    (objects.set task vt').countP VerifyTask.marks + vt.marks.toNat = objects.countP VerifyTask.marks + vt'.marks.toNat := by
  obtain ⟨hlt, hget⟩ := List.getElem?_eq_some_iff.1 hvt
  have hpos : vt.marks = true → 0 < objects.countP VerifyTask.marks :=
    fun hm => countP_pos_iff.2 ⟨vt, mem_of_getElem? hvt, hm⟩
  rw [countP_set hlt, hget]
  grind

lemma waiting_close (s : VerifyManager H κ π) (task : Nat) : (s.close task).waiting = s.waiting := by
  rcases close_cases s task with hsame | ⟨vt, hvt, hset⟩
  · rw [hsame]
  · have hcount := countP_set_marks hvt { vt with terminal := true }
    rw [hset, waiting, setTask, Nat.add_right_cancel hcount, waiting]

lemma waiting_foldl {f : VerifyManager H κ π → κ × Nat → VerifyManager H κ π} (hf : ∀ s e, (f s e).waiting = s.waiting)
    (es : List (κ × Nat)) : (es.foldl f s).waiting = s.waiting := by
  induction es generalizing s with
  | nil => rfl
  | cons e es ih => exact ih.trans (hf s e)

variable [DecidableEq κ]

lemma waiting_createFor (header : H) (diff : Bool) : (s.createFor v header diff).waiting = s.waiting := by
  unfold createFor cacheBlockVerified
  grind [waiting, newVerifyTask, VerifyTask.marks]

lemma waiting_mainStep (hstep : s.mainStep v a = some t) : t.waiting ≤ s.waiting + a.adds := by
  have hclose : ∀ (s : VerifyManager H κ π) e, (s.closeTask e).waiting = s.waiting := fun s e => s.waiting_close e.2
  have hfold := waiting_foldl (s := s) hclose
  have hfold' := waiting_foldl (s := s) fun s e => s.waiting_close e.2
  have hcache : ∀ (s : VerifyManager H κ π) hash, (s.cacheBlockVerified hash).waiting = s.waiting := fun _ _ => rfl
  have hmain : ∀ (s : VerifyManager H κ π) main, { s with main := main }.waiting = s.waiting := fun _ _ => rfl
  cases a <;> simp only [mainStep, newBlockVerifyTask, VerifyAction.adds] at hstep ⊢
  all_goals grind [waiting, waiting_createFor]

lemma waiting_taskStep [DecidableEq π] (hstep : s.taskStep v allowInsecure a = some t) : t.waiting ≤ s.waiting + a.adds := by
  have hset := @countP_set_marks H κ π
  cases a <;> simp only [taskStep, receive, logged, setTask, VerifyAction.adds] at hstep ⊢
  all_goals grind [VerifyTask.marks, waiting, Option.map_eq_some_iff, Bool.toNat_le]

lemma opened_createFor (hopened : ∀ e ∈ s.tasks, s.Opened v e) (header : H) (diff : Bool) :
    ∀ e ∈ (s.createFor v header diff).tasks, (s.createFor v header diff).Opened v e := by
  intro e he
  unfold createFor cacheBlockVerified Opened at *
  grind [newVerifyTask, getElem?_concat_length]

namespace Live
variable (h : s.Live v)
include h

omit [DecidableEq κ] in
lemma hash_eq (hm : s.main = .select) {e e' : κ × Nat} (he : e ∈ s.tasks) (he' : e' ∈ s.tasks)
    (htask : e'.2 = e.2) : e'.1 = e.1 := by
  have hopened := h.opened (by rw [hm]; nofun)
  obtain ⟨vt, hvt, hhash, -⟩ := hopened e he
  obtain ⟨vt', hvt', hhash', -⟩ := hopened e' he'
  grind

/-- Closing one task leaves those of the other blocks. -/
lemma closeTask (hm : s.main = .select) {e : κ × Nat} (he : ∀ e' ∈ s.tasks, e'.2 = e.2 → e'.1 = e.1) :
    (s.closeTask e).Live v := by
  refine ⟨fun hreturned e' he' => ?_, fun msg task hc => by cases hm.symm.trans hc⟩
  obtain ⟨hmem, hne⟩ := mem_filter.1 he'
  obtain ⟨vt, hvt, hopen⟩ := h.opened hreturned e' hmem
  have hother : e.2 ≠ e'.2 := fun htask => of_decide_eq_true hne (he e' hmem htask.symm)
  exact ⟨vt, (getElem?_modify_ne _ _ hother).trans hvt, hopen⟩

lemma foldl_closeTask (hm : s.main = .select) {es : List (κ × Nat)}
    (hes : ∀ e ∈ es, ∀ e' ∈ s.tasks, e'.2 = e.2 → e'.1 = e.1) : (es.foldl VerifyManager.closeTask s).Live v := by
  induction es generalizing s with
  | nil => exact h
  | cons e es ih =>
    obtain ⟨he, hes⟩ := forall_mem_cons.1 hes
    exact ih (h.closeTask hm he) hm fun e he e' he' => hes e he e' (mem_filter.1 he').1

lemma mainStep (hstep : s.mainStep v a = some t) : t.Live v := by
  have hcreate := fun hm => opened_createFor (h.opened hm)
  obtain ⟨hopened, hdelivering⟩ := id h
  cases a <;> simp only [VerifyManager.mainStep, newBlockVerifyTask] at hstep
  case takeVerified =>
    split at hstep
    next hash rest hm _ =>
      have hmark : ({ s with verifyCh := rest }.cacheBlockVerified hash).Live v := { h with }
      split at hstep
      next task hlookup =>
        cases hstep
        obtain ⟨l₁, l₂, heq, -⟩ := lookup_eq_some_iff.1 hlookup
        exact hmark.closeTask hm fun e' he' => hmark.hash_eq hm (heq ▸ mem_append_right l₁ mem_cons_self) he'
      · cases hstep
        exact hmark
    · cases hstep
  case prune =>
    split at hstep
    next hm =>
      cases hstep
      exact h.foldl_closeTask hm fun e he e' he' => h.hash_eq hm (mem_filter.1 he).1 he'
    · cases hstep
  all_goals
    refine ⟨fun hreturned e he => ?_, fun msg task hm => ?_⟩
    · grind [Opened, cacheBlockVerified]
    · grind [lookup_eq_some_iff, cacheBlockVerified]

variable [DecidableEq π]

lemma taskStep (hstep : s.taskStep v allowInsecure a = some t) : t.Live v := by
  obtain ⟨hopened, hdelivering⟩ := h
  unfold Opened at hopened
  cases a <;> simp only [VerifyManager.taskStep, receive, logged, setTask, VerifyTask.handle,
    VerifyTask.compareRootHashAndMark, VerifyTask.markBad] at hstep
  all_goals
    refine ⟨fun hreturned e he => ?_, fun msg task hm => ?_⟩
    · grind [Opened, VerifyTask.sendVerifyRequest, Option.map_eq_some_iff]
    · grind [Option.map_eq_some_iff]

lemma step (hstep : s.step v allowInsecure a = some t) : t.Live v ∧ t.waiting ≤ s.waiting + a.adds := by
  cases a <;> simp only [VerifyManager.step] at hstep
  case takeBlock | create | takeVerified | prune | handleRootResponse | quit | unsubscribed =>
    exact ⟨h.mainStep hstep, waiting_mainStep hstep⟩
  case request | receive | mark | terminate => exact ⟨h.taskStep hstep, waiting_taskStep hstep⟩
  all_goals
    have hsame : t.tasks = s.tasks ∧ t.objects = s.objects ∧ t.main = s.main ∧ t.verifyCh = s.verifyCh := by
      grind [callStep, validate, answer, setCall, logged]
    obtain ⟨htasks, hobjects, hmain, hverifyCh⟩ := hsame
    obtain ⟨hopened, hdelivering⟩ := h
    unfold Opened at hopened
    refine ⟨⟨?_, ?_⟩, ?_⟩
    · unfold Opened
      rwa [hmain, htasks, hobjects]
    · rwa [hmain, htasks]
    · rw [waiting, hverifyCh, hobjects]
      exact (Int.add_zero _).ge

lemma run {as : List (VerifyAction H κ π)} (hrun : Run (fun s a t => s.step v allowInsecure a = some t) s as t) :
    t.Live v ∧ t.waiting ≤ s.waiting + (as.map VerifyAction.adds).sum := by
  induction hrun with
  | nil s => exact ⟨h, by simp⟩
  | cons hstep _ ih =>
    obtain ⟨hlive, hone⟩ := h.step hstep
    obtain ⟨hlive', hsum⟩ := ih hlive
    refine ⟨hlive', ?_⟩
    rw [map_cons, sum_cons]
    omega

end Live

lemma exists_receive [DecidableEq π] {msg : VerifyMessage κ π} (hm : s.main = .delivering msg task)
    (hvt : s.objects[task]? = some vt) (hat : vt.at_ = .select) :
    ∃ t, s.step v allowInsecure .receive = some t ∧ t.main = .select := by
  simp only [step, taskStep, receive, hm, hvt, hat, if_true]
  split <;> exact ⟨_, rfl, rfl⟩

omit [DecidableEq κ] in
lemma not_stuck (h : s.waiting ≤ maxForkHeight) : s.stuck = false := by
  rw [Bool.eq_false_iff, stuck]
  split
  next msg task hm =>
    intro hstuck
    obtain ⟨hany, hfull⟩ := Bool.and_eq_true_iff.1 hstuck
    obtain ⟨vt, hvt, hmarks⟩ := (Option.any_eq_true _ _).1 hany
    have hpos := (countP_pos_iff (p := VerifyTask.marks)).2 ⟨vt, mem_of_getElem? hvt, hmarks⟩
    have hlen := of_decide_eq_true hfull
    unfold waiting at h
    omega
  · exact Bool.false_ne_true

end VerifyManager

/-- In every run: while the tasks have taken at most eleven messages more than the main loop has
taken hashes from `verifyCh`, the main loop does not wait for a task that waits for it. Its task
takes the message at once or after one step of its own. -/
theorem manager_never_stuck [DecidableEq κ] [DecidableEq π] {allowInsecure : Bool} {db : HeaderDb H κ} {current : UInt64}
    {s t : VerifyManager H κ π} (hstart : newVerifyManager v db current = some s) {as : List (VerifyAction H κ π)}
    (hrun : Run (fun s a t => s.step v allowInsecure a = some t) s as t)
    (hadds : (as.map VerifyAction.adds).sum ≤ maxForkHeight) :
    t.stuck = false ∧ ∀ msg task, t.main = .delivering msg task →
      ∃ as ∈ [[], [.mark task], [.request task defaultPeerNumber [] []]], ∃ u,
        Run (fun s a t => s.step v allowInsecure a = some t) t (as ++ [.receive]) u ∧ u.main = .select := by
  obtain ⟨marks, -, rfl⟩ := Option.map_eq_some_iff.1 hstart
  obtain ⟨hlive, hwaiting⟩ := VerifyManager.Live.run ⟨fun _ _ he => absurd he not_mem_nil, fun _ _ hm => by cases hm⟩ hrun
  have hnot := VerifyManager.not_stuck (hwaiting.trans (by simpa [VerifyManager.waiting] using hadds))
  refine ⟨hnot, fun msg task hm => ?_⟩
  obtain ⟨hash, hmem⟩ := hlive.delivering msg task hm
  obtain ⟨vt, hvt, -, -, hat⟩ := hlive.opened (by rw [hm]; nofun) _ hmem
  have hset : (t.objects.set task { vt with at_ := .select })[task]? = some { vt with at_ := .select } := by grind
  -- what the task does before it is at its `select`
  cases hat' : vt.at_ with
  | select =>
    obtain ⟨u, hu, hselect⟩ := VerifyManager.exists_receive hm hvt hat'
    exact ⟨[], by simp, u, .single hu, hselect⟩
  | marking hash =>
    have hroom : t.verifyCh.length < maxForkHeight := by
      grind [VerifyManager.stuck, VerifyTask.marks]
    obtain ⟨u, hu, hselect⟩ := VerifyManager.exists_receive
      (s := { t.setTask task { vt with at_ := .select } with verifyCh := t.verifyCh ++ [hash] }) hm hset rfl
    refine ⟨[.mark task], by simp, u, .cons ?_ (.single hu), hselect⟩
    simp only [VerifyManager.step, VerifyManager.taskStep, hvt, hat', if_pos hroom]
  | starting =>
    obtain ⟨u, hu, hselect⟩ := VerifyManager.exists_receive (s := t.setTask task { vt with at_ := .select }) hm hset rfl
    refine ⟨[.request task defaultPeerNumber [] []], by simp, u, .cons ?_ (.single hu), hselect⟩
    simp [VerifyManager.step, VerifyManager.taskStep, hvt, hat', VerifyTask.sendVerifyRequest]
  | returned => exact absurd hat' hat

/-- A task takes twelve responses, and the main loop holds a thirteenth. -/
def floodRun (block : Bool × Fin 13) : List (VerifyAction (Bool × Fin 13) (Option (Bool × Fin 13)) Nat) :=
  let run := rivalRun [] 9 block
  let marked := (run.drop 5).take 3
  run.take 5 ++ (replicate 11 marked).flatten ++ marked.take 2 ++ marked.take 1

theorem responses_block_manager : ∃ s t, newVerifyManager rivalFields rivalDb 0 = some s ∧
    Run (fun s a t => s.step rivalFields false a = some t) s (floodRun (true, 12)) t ∧ t.stuck = true := by
  exact exists_rival_run (by decide +kernel)

theorem manager_never_stuck_once : ∃ s t, newVerifyManager rivalFields rivalDb 0 = some s ∧
    Run (fun s a t => s.step rivalFields false a = some t) s ((floodRun (true, 12)).take 6) t ∧ t.stuck = false := by
  obtain ⟨s, t, hs, hrun, -⟩ := exists_rival_run (l := (floodRun (true, 12)).take 6) (p := fun _ => true) (by decide +kernel)
  exact ⟨s, t, hs, hrun, (manager_never_stuck hs hrun (by decide)).1⟩

end TurboOctopus.Core
