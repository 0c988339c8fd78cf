import Mathlib.Data.Fintype.Prod
import TurboOctopus.Core.VerifyManager
/-!
# What is marked as verified

Every mark but those of the start, of the genesis block and of empty blocks goes back to a
message with the right status and root that the block's task has accepted
(`VerifyManager.Sound`), and a block validates only if the header found eleven numbers below
is empty or marked. Whether that header is an ancestor of the block, and whether the task has
asked the peer, nobody looks at.
-/
namespace TurboOctopus.Core

open Lib List VerifyManager

variable {H κ π : Type} [DecidableEq κ] {v : VerifyFields H κ}

/-! ## Causes -/

/-- The hash was marked, or was so from the start. -/
def Marked (log : List (VerifyEvent H κ π)) (hash : κ) : Prop := .marked hash ∈ log ∨ .premarked hash ∈ log

/-- A message about the block was accepted. -/
def Accepted (log : List (VerifyEvent H κ π)) (hash : κ) : Prop :=
  ∃ msg vt, .accepted msg vt ∈ log ∧ msg.verifyResult.blockHash = hash

variable (v) in
/-- What a message that is accepted says. -/
structure Confirms (allowInsecure : Bool) (msg : VerifyMessage κ π) (vt : VerifyTask H κ π) : Prop where
  hash : v.hash vt.blockHeader = msg.verifyResult.blockHash
  root : msg.verifyResult.root = v.root vt.blockHeader
  status : msg.verifyResult.status = .fullVerified ∨ (msg.verifyResult.status = .partiallyVerified ∧ allowInsecure = true)

/-- The task has sent the peer a request and not found it bad. -/
def Solicited (vt : VerifyTask H κ π) (peer : π) : Prop := peer ∈ vt.requested ∧ peer ∉ vt.badPeers

variable (v) in
/-- What is true of an event, from what came before it. -/
def VerifyEvent.Caused (allowInsecure : Bool) (before : List (VerifyEvent H κ π)) : VerifyEvent H κ π → Prop
  | .premarked _ => True
  | .marked hash =>
    Accepted before hash ∨ ∃ header, v.hash header = hash ∧ (v.number header = 0 ∨ v.txHash header = v.emptyRootHash)
  | .accepted msg vt => Confirms v allowInsecure msg vt ∧ Solicited vt msg.peerId
  | .validated _ none => True
  | .validated _ (some header) => v.txHash header = v.emptyRootHash ∨ Marked before (v.hash header)

variable (v) in
/-- Every event has its cause; the last one is first. -/
def AllCaused (allowInsecure : Bool) : List (VerifyEvent H κ π) → Prop
  | [] => True
  | e :: log => e.Caused v allowInsecure log ∧ AllCaused allowInsecure log

omit [DecidableEq κ] in
lemma AllCaused.of_append {allowInsecure : Bool} {l log : List (VerifyEvent H κ π)} {e : VerifyEvent H κ π}
    (h : AllCaused v allowInsecure (l ++ e :: log)) : e.Caused v allowInsecure log := by
  induction l with
  | nil => exact h.1
  | cons e' l ih => exact ih h.2

/-! ## The manager between steps -/

namespace VerifyManager

variable (v) in
structure Sound (allowInsecure : Bool) (s : VerifyManager H κ π) : Prop where
  cache : s.verifiedCache.All fun hash _ => Marked s.log hash
  queue : ∀ hash ∈ s.verifyCh, Accepted s.log hash
  marking : ∀ vt ∈ s.objects, ∀ hash, vt.at_ = .marking hash → Accepted s.log hash
  tasks : ∀ e ∈ s.tasks, ∃ vt, s.objects[e.2]? = some vt ∧ v.hash vt.blockHeader = e.1
  delivering : ∀ msg task, s.main = .delivering msg task →
    ∃ vt, s.objects[task]? = some vt ∧ v.hash vt.blockHeader = msg.verifyResult.blockHash
  caused : AllCaused v allowInsecure s.log

variable {allowInsecure : Bool} {s t : VerifyManager H κ π}

lemma Sound.logged (h : s.Sound v allowInsecure) {e : VerifyEvent H κ π} (he : e.Caused v allowInsecure s.log) :
    (s.logged e).Sound v allowInsecure := by
  have hmono : ∀ {hash}, Accepted s.log hash → Accepted (e :: s.log) hash := by
    rintro hash ⟨msg, vt, hmem, heq⟩
    exact ⟨msg, vt, mem_cons_of_mem _ hmem, heq⟩
  refine ⟨fun hash u hu => ?_, fun hash hh => hmono (h.queue hash hh), fun vt hvt hash hh => hmono (h.marking vt hvt hash hh),
    h.tasks, h.delivering, he, h.caused⟩
  exact (h.cache hash u hu).imp (mem_cons_of_mem _) (mem_cons_of_mem _)

/-- Any subset of what is marked may be in the cache. -/
lemma Sound.withCache (h : s.Sound v allowInsecure) {cache : Lru κ Unit verifiedCacheSize}
    (hcache : cache.All fun hash _ => Marked s.log hash) : { s with verifiedCache := cache }.Sound v allowInsecure :=
  { h with cache := hcache }

variable {a : VerifyAction H κ π} {hash : κ} {task : Nat} {vt vt' : VerifyTask H κ π}

lemma Sound.cacheBlockVerified (h : s.Sound v allowInsecure)
    (hcause : (VerifyEvent.marked hash).Caused v allowInsecure s.log) : (s.cacheBlockVerified hash).Sound v allowInsecure := by
  refine (h.logged hcause).withCache (Lru.All.add ?_ (.inl mem_cons_self))
  split
  · exact (h.logged hcause).cache.removeOldest
  · exact (h.logged hcause).cache

section
omit [DecidableEq κ]

lemma getElem?_set_header {objects : List (VerifyTask H κ π)}
    (hvt : objects[task]? = some vt) (hheader : vt'.blockHeader = vt.blockHeader) {i : Nat}
    (hi : ∃ u, objects[i]? = some u ∧ v.hash u.blockHeader = hash) :
    ∃ u, (objects.set task vt')[i]? = some u ∧ v.hash u.blockHeader = hash := by
  obtain ⟨u, hu, hash_eq⟩ := hi
  by_cases hne : task = i
  · subst hne
    rw [hvt] at hu
    cases hu
    refine ⟨vt', ?_, by rw [hheader, hash_eq]⟩
    rw [List.getElem?_set_self (List.getElem?_eq_some_iff.1 hvt).1]
  · exact ⟨u, by rw [List.getElem?_set_ne hne]; exact hu, hash_eq⟩

lemma close_cases (s : VerifyManager H κ π) (task : Nat) : s.close task = s ∨
    ∃ vt, s.objects[task]? = some vt ∧ s.close task = s.setTask task { vt with terminal := true } := by
  unfold VerifyManager.close VerifyManager.setTask
  rw [modify_eq_set_getElem?]
  cases hvt : s.objects[task]? with
  | none => exact .inl rfl
  | some vt => exact .inr ⟨vt, rfl, rfl⟩

end

namespace Sound

section
variable (h : s.Sound v allowInsecure)
include h

/-- A task may change but for its header, and mark only what it has accepted. -/
lemma setTask (hvt : s.objects[task]? = some vt)
    (hheader : vt'.blockHeader = vt.blockHeader) (hmarking : ∀ hash, vt'.at_ = .marking hash → Accepted s.log hash) :
    (s.setTask task vt').Sound v allowInsecure := by
  refine ⟨h.cache, h.queue, fun u hu hash hh => ?_, fun e he => getElem?_set_header hvt hheader (h.tasks e he),
    fun msg i hm => getElem?_set_header hvt hheader (h.delivering msg i hm), h.caused⟩
  rcases mem_or_eq_of_mem_set hu with hu | rfl
  · exact h.marking u hu hash hh
  · exact hmarking hash hh

lemma close (task : Nat) : (s.close task).Sound v allowInsecure := by
  rcases close_cases s task with hsame | ⟨vt, hvt, hset⟩
  · rw [hsame]
    exact h
  · rw [hset]
    exact h.setTask hvt rfl fun hash hh => h.marking vt (mem_of_getElem? hvt) hash hh

lemma closeTask (e : κ × Nat) : (s.closeTask e).Sound v allowInsecure := by
  have hc := h.close e.2
  exact { hc with tasks := fun e' he' => hc.tasks e' (mem_filter.1 he').1 }

/-- The main loop may go anywhere, but deliver to no other task than the block's. -/
lemma withMain {main : ManagerAt H κ π} (hmain : ∀ msg task, main = .delivering msg task →
    ∃ vt, s.objects[task]? = some vt ∧ v.hash vt.blockHeader = msg.verifyResult.blockHash) :
    { s with main := main }.Sound v allowInsecure := { h with delivering := hmain }

lemma select : { s with main := .select }.Sound v allowInsecure := h.withMain nofun

end

/-! ## The main loop -/

section
variable (h : s.Sound v allowInsecure)
include h

lemma newTask (header : H) :
    { s with
      tasks := (v.hash header, s.objects.length) :: s.tasks
      objects := s.objects ++ [newVerifyTask header] }.Sound v allowInsecure := by
  have hkeep : ∀ {i : Nat} {hash : κ}, (∃ u, s.objects[i]? = some u ∧ v.hash u.blockHeader = hash) →
      ∃ u, (s.objects ++ [newVerifyTask header])[i]? = some u ∧ v.hash u.blockHeader = hash := by
    rintro i hash ⟨u, hu, hash_eq⟩
    exact ⟨u, by rw [List.getElem?_append_left (List.getElem?_eq_some_iff.1 hu).1]; exact hu, hash_eq⟩
  refine ⟨h.cache, h.queue, forall_mem_append.2 ⟨h.marking, forall_mem_singleton.2 nofun⟩, ?_,
    fun msg i hm => hkeep (h.delivering msg i hm), h.caused⟩
  exact forall_mem_cons.2 ⟨⟨newVerifyTask header, List.getElem?_concat_length, rfl⟩, fun e he => hkeep (h.tasks e he)⟩

lemma createFor (header : H) (diff : Bool) : (s.createFor v header diff).Sound v allowInsecure := by
  have hget := h.withCache (h.cache.get (v.hash header))
  unfold VerifyManager.createFor
  simp only
  split
  · exact hget
  split
  · exact hget
  split
  next hempty => exact hget.cacheBlockVerified (.inr ⟨header, rfl, .inr hempty⟩)
  split
  · exact hget.newTask header
  · exact hget

lemma newBlockVerifyTask {diff : Bool} (hstep : s.newBlockVerifyTask v diff = some t) : t.Sound v allowInsecure := by
  unfold VerifyManager.newBlockVerifyTask at hstep
  split at hstep
  next header i hmain =>
    split at hstep
    · cases hstep
      exact h.select
    split at hstep
    next hzero =>
      cases hstep
      exact (h.cacheBlockVerified (.inr ⟨header, rfl, .inl hzero⟩)).select
    · cases hstep
      exact (h.createFor header diff).withMain nofun
  · cases hstep
    exact h.select
  · cases hstep

lemma foldl_closeTask (es : List (κ × Nat)) : (es.foldl VerifyManager.closeTask s).Sound v allowInsecure := by
  induction es generalizing s with
  | nil => exact h
  | cons e es ih => exact ih (h.closeTask e)

lemma foldl_close (es : List (κ × Nat)) : (es.foldl (fun s e => s.close e.2) s).Sound v allowInsecure := by
  induction es generalizing s with
  | nil => exact h
  | cons e es ih => exact ih (h.close e.2)

lemma mainStep (hstep : s.mainStep v a = some t) : t.Sound v allowInsecure := by
  unfold VerifyManager.mainStep at hstep
  split at hstep
  · split at hstep
    · cases hstep
      exact { h with delivering := nofun }
    · cases hstep
  · exact h.newBlockVerifyTask hstep
  · split at hstep
    next hash rest _ hqueue =>
      have hrest : { s with verifyCh := rest }.Sound v allowInsecure := by
        refine { h with queue := fun hash' hh => h.queue hash' ?_ }
        rw [hqueue]
        exact mem_cons_of_mem _ hh
      have hmark := hrest.cacheBlockVerified (.inl (h.queue hash (by rw [hqueue]; exact mem_cons_self)))
      simp only at hstep
      split at hstep
      · cases hstep
        exact hmark.closeTask _
      · cases hstep
        exact hmark
    · cases hstep
  · split at hstep
    · cases hstep
      exact h.foldl_closeTask _
    · cases hstep
  next msg =>
    split at hstep
    · split at hstep
      next task hlookup =>
        cases hstep
        refine h.withMain fun msg' task' heq => ?_
        cases heq
        obtain ⟨l₁, l₂, heq, -⟩ := lookup_eq_some_iff.1 hlookup
        exact h.tasks (msg.verifyResult.blockHash, task) (by rw [heq]; exact mem_append_right _ mem_cons_self)
      · cases hstep
        exact h
    · cases hstep
  · split at hstep
    · cases hstep
      exact (h.foldl_close s.tasks).withMain nofun
    · cases hstep
  · split at hstep
    · cases hstep
      exact h.withMain nofun
    · cases hstep
  · cases hstep

end

end Sound

/-! ## Tasks -/

/-- A task that does not go back to its `select` has accepted the message. -/
lemma handle_cases (allowInsecure : Bool) (vt : VerifyTask H κ π) (msg : VerifyMessage κ π) :
    (vt.handle v allowInsecure msg).blockHeader = vt.blockHeader ∧
    ((vt.handle v allowInsecure msg).at_ = vt.at_ ∨
      ((vt.handle v allowInsecure msg).at_ = .marking msg.verifyResult.blockHash ∧
        msg.verifyResult.root = v.root vt.blockHeader ∧
        (msg.verifyResult.status = .fullVerified ∨
          (msg.verifyResult.status = .partiallyVerified ∧ allowInsecure = true)))) := by
  have hcompare : (vt.compareRootHashAndMark v msg).blockHeader = vt.blockHeader ∧
      ((vt.compareRootHashAndMark v msg).at_ = vt.at_ ∨
        ((vt.compareRootHashAndMark v msg).at_ = .marking msg.verifyResult.blockHash ∧
          msg.verifyResult.root = v.root vt.blockHeader)) := by
    unfold VerifyTask.compareRootHashAndMark
    split
    next hroot => exact ⟨rfl, .inr ⟨rfl, hroot⟩⟩
    · exact ⟨rfl, .inl rfl⟩
  unfold VerifyTask.handle
  split
  next hstatus => exact ⟨hcompare.1, hcompare.2.imp_right fun hc => ⟨hc.1, hc.2, .inl hstatus⟩⟩
  next hstatus =>
    split
    next hallow => exact ⟨hcompare.1, hcompare.2.imp_right fun hc => ⟨hc.1, hc.2, .inr ⟨hstatus, hallow⟩⟩⟩
    · exact ⟨rfl, .inl rfl⟩
  all_goals exact ⟨rfl, .inl rfl⟩

/-- The message on its way to a task is from a peer that the task has asked and not found
bad. -/
def Answers (s : VerifyManager H κ π) : Prop :=
  ∀ msg task vt, s.main = .delivering msg task → s.objects[task]? = some vt → Solicited vt msg.peerId

lemma Sound.receive (h : s.Sound v allowInsecure) (hanswers : s.Answers) (hstep : s.receive v allowInsecure = some t) : t.Sound v allowInsecure := by
  unfold VerifyManager.receive at hstep
  split at hstep
  next msg task hmain =>
    split at hstep
    next vt hvt =>
      obtain ⟨hheader, hcases⟩ := handle_cases (v := v) allowInsecure vt msg
      split at hstep
      next hselect =>
        simp only at hstep
        split at hstep
        next hback =>
          cases hstep
          refine (h.setTask hvt hheader fun hash hh => ?_).select
          rw [hback] at hh
          cases hh
        next hnot =>
          cases hstep
          rcases hcases with hsame | ⟨hmark, hroot, hstatus⟩
          · exact absurd (hsame.trans hselect) hnot
          · obtain ⟨u, hu, hhash⟩ := h.delivering msg task hmain
            rw [hvt] at hu
            cases hu
            have hlogged := h.logged (e := .accepted msg vt) ⟨⟨hhash, hroot, hstatus⟩, hanswers msg task vt hmain hvt⟩
            refine (hlogged.setTask hvt hheader fun hash hh => ?_).select
            rw [hmark] at hh
            cases hh
            exact ⟨msg, vt, mem_cons_self, rfl⟩
      · cases hstep
    · cases hstep
  · cases hstep

omit [DecidableEq κ] in
lemma sendVerifyRequest_eq [DecidableEq π] {n : Int} {candidatePeers shuffled : List π}
    (h : vt.sendVerifyRequest n candidatePeers shuffled = some vt') : ∃ requested, vt' = { vt with requested := requested } := by
  unfold VerifyTask.sendVerifyRequest at h
  simp only at h
  split at h
  · cases h
    exact ⟨_, rfl⟩
  split at h
  · split at h
    · cases h
      exact ⟨_, rfl⟩
    · cases h
  · cases h
    exact ⟨_, rfl⟩

lemma Sound.taskStep [DecidableEq π] (h : s.Sound v allowInsecure) (hanswers : s.Answers)
    (hstep : s.taskStep v allowInsecure a = some t) : t.Sound v allowInsecure := by
  unfold VerifyManager.taskStep at hstep
  split at hstep
  · split at hstep
    next vt hvt =>
      split at hstep
      · obtain ⟨vt', hsend, rfl⟩ := Option.map_eq_some_iff.1 hstep
        obtain ⟨requested, rfl⟩ := sendVerifyRequest_eq hsend
        exact h.setTask hvt rfl nofun
      · cases hstep
    · cases hstep
  · exact h.receive hanswers hstep
  · split at hstep
    next vt hvt =>
      split at hstep
      next hash hmark =>
        split at hstep
        · cases hstep
          have hset : (s.setTask _ { vt with at_ := .select }).Sound v allowInsecure := h.setTask hvt rfl nofun
          refine { hset with queue := forall_mem_append.2 ⟨h.queue, ?_⟩ }
          exact forall_mem_singleton.2 (h.marking vt (mem_of_getElem? hvt) hash hmark)
        · cases hstep
      · cases hstep
    · cases hstep
  · split at hstep
    next vt hvt =>
      split at hstep
      · cases hstep
        exact h.setTask hvt rfl nofun
      · cases hstep
    · cases hstep
  · cases hstep

/-! ## ValidateBody -/

section
variable (h : s.Sound v allowInsecure)
include h

lemma Sound.withCalls (calls : List (ValidateCall H)) : { s with calls := calls }.Sound v allowInsecure :=
  { h with }

lemma Sound.validate (block : H) (passes : Bool) : (s.validate v block passes).Sound v allowInsecure := by
  unfold VerifyManager.validate
  split
  · split
    · exact h.logged trivial
    · exact h
  · split
    next hempty =>
      split
      · exact h.logged (.inl hempty)
      · exact h
    · split
      · exact h.withCalls _
      · exact h.withCalls _

lemma Sound.answer (call : Nat) (c : ValidateCall H) : (s.answer v call c).Sound v allowInsecure := by
  have hget := (h.withCache (h.cache.get (v.hash c.header))).withCalls
    (s.calls.set call { c with at_ := .returned ((s.verifiedCache.get (v.hash c.header)).1).isSome })
  unfold VerifyManager.answer
  simp only
  split
  next hfound =>
    rw [Bool.and_eq_true] at hfound
    obtain ⟨u, hu⟩ := Option.isSome_iff_exists.1 hfound.1
    rw [Lru.get_fst] at hu
    exact hget.logged (.inr (h.cache _ u hu))
  · exact hget

lemma Sound.callStep (hstep : s.callStep v a = some t) : t.Sound v allowInsecure := by
  unfold VerifyManager.callStep at hstep
  split at hstep
  · cases hstep
    exact h.validate _ _
  · split at hstep
    · split at hstep
      · split at hstep
        · cases hstep
          exact h.withCalls _
        · cases hstep
      · cases hstep
    · cases hstep
  · split at hstep
    · split at hstep
      · cases hstep
        exact h.withCalls _
      · cases hstep
    · cases hstep
  · split at hstep
    · split at hstep
      · cases hstep
        exact h.answer _ _
      · cases hstep
    · cases hstep
  · cases hstep

end

/-! ## Runs -/

lemma Sound.step [DecidableEq π] (h : s.Sound v allowInsecure) (hanswers : s.Answers)
    (hstep : s.step v allowInsecure a = some t) : t.Sound v allowInsecure := by
  cases a <;> simp only [step] at hstep
  case chain =>
    cases hstep
    exact { h with }
  case newBlock =>
    split at hstep <;> cases hstep
    exact { h with }
  case takeBlock | create | takeVerified | prune | handleRootResponse | quit | unsubscribed => exact h.mainStep hstep
  case request | receive | mark | terminate => exact h.taskStep hanswers hstep
  all_goals exact h.callStep hstep

lemma Sound.start {db : HeaderDb H κ} {current : UInt64} (hstart : newVerifyManager v db current = some s) : s.Sound v allowInsecure := by
  unfold newVerifyManager at hstart
  obtain ⟨marks, -, rfl⟩ := Option.map_eq_some_iff.1 hstart
  have hcache : ∀ (l : List κ) (c : Lru κ Unit verifiedCacheSize), (∀ hash ∈ l, hash ∈ marks) →
      c.All (fun hash _ => hash ∈ marks) → (l.foldl (fun c hash => c.add hash ()) c).All fun hash _ => hash ∈ marks := by
    intro l
    induction l with
    | nil => exact fun _ _ hc => hc
    | cons hash l ih =>
      intro c hl hc
      exact ih _ (fun x hx => hl x (mem_cons_of_mem _ hx)) (hc.add (hl hash mem_cons_self))
  have hcaused : ∀ l : List κ, AllCaused v allowInsecure (l.map VerifyEvent.premarked : List (VerifyEvent H κ π)) := by
    intro l
    induction l with
    | nil => trivial
    | cons hash l ih => exact ⟨trivial, ih⟩
  refine ⟨fun hash u hu => .inr (mem_map_of_mem (hcache marks _ (fun _ hx => hx) .empty hash u hu)), ?_, ?_, ?_, ?_,
    hcaused marks⟩
  · exact nofun
  · exact nofun
  · exact nofun
  · exact nofun

variable (v) in
/-- Runs in which only peers answer that the block's task has asked and not found bad. -/
def Runs [DecidableEq π] (allowInsecure : Bool) (s : VerifyManager H κ π) (as : List (VerifyAction H κ π)) (t : VerifyManager H κ π) : Prop :=
  Run (Guarded (fun s _ => s.Answers) fun s a => s.step v allowInsecure a) s as t

end VerifyManager

/-- In every run in which only peers answer that the block's task has asked and not found bad:
a block that is neither empty nor the genesis block is marked, if not from the start, only
after such a peer's message with the right status and the block's root; and where the header
found eleven numbers below a block is on its own branch, the block validates only if its
ancestor eleven generations up is empty or was marked. -/
theorem verified_ancestors [DecidableEq π] {db : HeaderDb H κ} {current : UInt64} {allowInsecure : Bool}
    {s t : VerifyManager H κ π} (hstart : newVerifyManager v db current = some s) {as : List (VerifyAction H κ π)}
    (hrun : s.Runs v allowInsecure as t) :
    (∀ l header log, t.log = l ++ .marked (v.hash header) :: log → v.number header ≠ 0 →
      v.txHash header ≠ v.emptyRootHash → ∃ msg vt, .accepted msg vt ∈ log ∧ vt.blockHeader = header ∧
        msg.verifyResult.blockHash = v.hash header ∧ msg.verifyResult.root = v.root header ∧
        (msg.verifyResult.status = .fullVerified ∨ (msg.verifyResult.status = .partiallyVerified ∧ allowInsecure = true)) ∧
        Solicited vt msg.peerId) ∧
    ∀ l block found log, t.log = l ++ .validated block (some found) :: log → v.Descends block found →
      (v.number found).toNat + maxForkHeight = (v.number block).toNat →
      ∀ ancestor, v.Descends block ancestor → (v.number ancestor).toNat + maxForkHeight = (v.number block).toNat →
        v.txHash ancestor = v.emptyRootHash ∨ Marked log (v.hash ancestor) := by
  have hs : t.Sound v allowInsecure := by
    refine Run.inv (fun s : VerifyManager H κ π => s.Sound v allowInsecure) hrun (.start hstart) ?_
    rintro s a t hs ⟨hanswers, hstep⟩
    exact hs.step hanswers hstep
  have hcaused := hs.caused
  refine ⟨fun l header log hlog hzero hempty => ?_, fun l block found log hlog hfound hnumber ancestor hanc hnumber' => ?_⟩
  · rw [hlog] at hcaused
    rcases hcaused.of_append with ⟨msg, vt, hmem, hhash⟩ | ⟨header', hhash, hor⟩
    · obtain ⟨l₁, l₂, hsplit⟩ := append_of_mem hmem
      rw [hsplit, ← cons_append, ← append_assoc] at hcaused
      obtain ⟨hconfirms, hsolicited⟩ := hcaused.of_append
      have hheader : vt.blockHeader = header := v.hash_inj _ _ (hconfirms.hash.trans hhash)
      refine ⟨msg, vt, hmem, hheader, hhash, ?_, hconfirms.status, hsolicited⟩
      rw [hconfirms.root, hheader]
    · cases v.hash_inj _ _ hhash
      exact hor.elim (fun h => absurd h hzero) fun h => absurd h hempty
  · have heq : v.number ancestor = v.number found := UInt64.toNat_inj.1 (by omega)
    rw [hlog] at hcaused
    rw [hanc.eq_of_number_eq hfound heq]
    exact hcaused.of_append

/-! ## A chain of thirteen blocks and its rival -/

/-- Block `n` of the chain or, with `false`, of a branch that leaves it after the genesis
block; no block is empty. -/
def rivalFields : VerifyFields (Bool × Fin 13) (Option (Bool × Fin 13)) where
  number h := h.2.val.toUInt64
  hash h := some h
  parentHash h := if h.2 = 0 then none else if h.2 = 1 then some (true, 0) else some (h.1, h.2 - 1)
  difficulty _ := 1
  total k := k.elim 0 (·.2.val + 1)
  hash_inj := by decide +kernel
  number_parent := by decide +kernel
  total_hash := by decide +kernel
  root h := some h
  txHash h := some h
  emptyRootHash := none

/-- All blocks are stored, and the chain is canonical. -/
def rivalDb : HeaderDb (Bool × Fin 13) (Option (Bool × Fin 13)) :=
  (List.finRange 13).foldl (fun db n =>
    { db with
      headers := (db.headers.insert (n.val.toUInt64, some (true, n)) (true, n)).insert (n.val.toUInt64, some (false, n)) (false, n)
      numbers := (db.numbers.insert (some (true, n)) n.val.toUInt64).insert (some (false, n)) n.val.toUInt64
      canonical := db.canonical.insert n.val.toUInt64 (some (true, n)) }) ⟨∅, ∅, ∅, ∅⟩

/-- The first block gets a task, which asks the given peers; a message from a peer says that it
is fully verified. Then a block is validated. -/
def rivalRun (asked : List Nat) (peer : Nat) (block : Bool × Fin 13) :
    List (VerifyAction (Bool × Fin 13) (Option (Bool × Fin 13)) Nat) :=
  [.newBlock (true, 1), .takeBlock, .create true, .create true, .request 0 3 asked [],
    .handleRootResponse ⟨⟨.fullVerified, 1, some (true, 1), some (true, 1)⟩, peer⟩, .receive, .mark 0, .takeVerified,
    .validate block true, .answer 0]

/-- The log of such a run: the block is valid because the first block of the chain was marked. -/
def VerifyManager.Ends (t : VerifyManager (Bool × Fin 13) (Option (Bool × Fin 13)) Nat) (block : Bool × Fin 13) (peer : Nat)
    (requested : List Nat) : Prop :=
  ∃ msg vt, t.log = [.validated block (some (true, 1)), .marked (some (true, 1)), .accepted msg vt, .marked (some (true, 0))] ∧
    msg.verifyResult.blockHash = some (true, 1) ∧ msg.peerId = peer ∧ vt.requested = requested

def VerifyManager.ends (t : VerifyManager (Bool × Fin 13) (Option (Bool × Fin 13)) Nat) (block : Bool × Fin 13) (peer : Nat)
    (requested : List Nat) : Bool :=
  match t.log with
  | [.validated b (some h), .marked k, .accepted msg vt, .marked g] =>
    b = block ∧ h = (true, 1) ∧ k = some (true, 1) ∧ g = some (true, 0) ∧
      msg.verifyResult.blockHash = some (true, 1) ∧ msg.peerId = peer ∧ vt.requested = requested
  | _ => false

lemma VerifyManager.Ends.of_ends {t : VerifyManager (Bool × Fin 13) (Option (Bool × Fin 13)) Nat} {block : Bool × Fin 13}
    {peer : Nat} {requested : List Nat} (h : t.ends block peer requested = true) : t.Ends block peer requested := by
  unfold ends at h
  split at h
  next b header k msg vt g hlog =>
    obtain ⟨rfl, rfl, rfl, rfl, hhash, hpeer, hrequested⟩ := of_decide_eq_true h
    exact ⟨msg, vt, hlog, hhash, hpeer, hrequested⟩
  next => cases h

instance VerifyManager.decidableAnswers {H κ π : Type} [DecidableEq π] (s : VerifyManager H κ π) : Decidable s.Answers :=
  match hmain : s.main with
  | .delivering msg task =>
    match hvt : s.objects[task]? with
    | some vt =>
      decidable_of_iff (msg.peerId ∈ vt.requested ∧ msg.peerId ∉ vt.badPeers)
        ⟨fun h _ _ _ hm ho => by
          rw [hmain] at hm
          cases hm
          rw [hvt] at ho
          cases ho
          exact h, fun h => h _ _ _ hmain hvt⟩
    | none => isTrue fun _ _ _ hm ho => by
        rw [hmain] at hm
        cases hm
        rw [hvt] at ho
        cases ho
  | .select => isTrue fun _ _ _ hm => by rw [hmain] at hm; cases hm
  | .creating _ _ => isTrue fun _ _ _ hm => by rw [hmain] at hm; cases hm
  | .returned => isTrue fun _ _ _ hm => by rw [hmain] at hm; cases hm

lemma descends_rival : ∀ n (hn : n + 1 < 13), rivalFields.Descends (false, ⟨n + 1, hn⟩) (false, 1)
  | 0, _ => .refl _
  | n + 1, hn => by
    have hparent : ∀ m : Fin 11, rivalFields.hash (false, m.castSucc.succ) = rivalFields.parentHash (false, m.succ.succ) := by
      decide +kernel
    exact .parent (hparent ⟨n, by omega⟩) (descends_rival n (by omega))

/-- The twelfth block of the chain is valid after a requested message about the first. -/
theorem verified_ancestors_chain :
    ∃ s t, newVerifyManager rivalFields rivalDb 0 = some s ∧ s.Runs rivalFields false (rivalRun [7] 7 (true, 12)) t ∧
      t.Ends (true, 12) 7 [7] ∧
      ∃ msg vt, .accepted msg vt ∈ t.log ∧ vt.blockHeader = (true, 1) ∧ Solicited vt msg.peerId := by
  obtain ⟨s, hs⟩ : ∃ s, newVerifyManager rivalFields rivalDb 0 = some s := ⟨_, rfl⟩
  have hends : ((newVerifyManager rivalFields rivalDb 0).bind fun s => (rivalRun [7] 7 (true, 12)).foldlM
      (fun s a => if s.Answers then s.step rivalFields false a else none) s).any (·.ends (true, 12) 7 [7]) = true := by
    decide +kernel
  rw [hs, Option.bind_some] at hends
  obtain ⟨t, hrun, ht⟩ := Run.of_guarded hends
  obtain ⟨msg, vt, hlog, hfacts⟩ := VerifyManager.Ends.of_ends ht
  obtain ⟨msg', vt', hmem, hheader, -, -, -, hsol⟩ :=
    (verified_ancestors hs hrun).1 [_] (true, 1) _ hlog (by decide) (by decide)
  refine ⟨s, t, hs, hrun, ⟨msg, vt, hlog, hfacts⟩, msg', vt', ?_, hheader, hsol⟩
  rw [hlog]
  exact mem_cons_of_mem _ (mem_cons_of_mem _ hmem)

/-- The run is found by running it. -/
lemma exists_rival_run {l : List (VerifyAction (Bool × Fin 13) (Option (Bool × Fin 13)) Nat)}
    {p : VerifyManager (Bool × Fin 13) (Option (Bool × Fin 13)) Nat → Bool}
    (h : ((newVerifyManager rivalFields rivalDb 0).bind fun s => l.foldlM
      (fun s a => s.step rivalFields false a) s).any p = true) : ∃ s t, newVerifyManager rivalFields rivalDb 0 = some s ∧
      Run (fun s a t => s.step rivalFields false a = some t) s l t ∧ p t = true := by
  obtain ⟨s, hs⟩ : ∃ s, newVerifyManager rivalFields rivalDb 0 = some s := ⟨_, rfl⟩
  rw [hs, Option.bind_some] at h
  obtain ⟨t, hrun, ht⟩ := Run.of_foldlM h
  exact ⟨s, t, hs, hrun, ht⟩

/-- The last block of the branch is valid although no block of the branch was ever marked, and
the first block of the chain is marked by a message from a peer that nobody asked. -/
theorem other_branch_validates : ∃ s t, newVerifyManager rivalFields rivalDb 0 = some s ∧
      Run (fun s a t => s.step rivalFields false a = some t) s (rivalRun [] 9 (false, 12)) t ∧ t.Ends (false, 12) 9 [] ∧
      rivalFields.Descends (false, 12) (false, 1) ∧ rivalFields.txHash (false, 1) ≠ rivalFields.emptyRootHash ∧
      ¬ Marked t.log (rivalFields.hash (false, 1)) := by
  have hends : ((newVerifyManager rivalFields rivalDb 0).bind fun s => (rivalRun [] 9 (false, 12)).foldlM
      (fun s a => s.step rivalFields false a) s).any (·.ends (false, 12) 9 []) = true := by
    decide +kernel
  obtain ⟨s, t, hs, hrun, ht⟩ := exists_rival_run hends
  obtain ⟨msg, vt, hlog, hfacts⟩ := VerifyManager.Ends.of_ends ht
  refine ⟨s, t, hs, hrun, ⟨msg, vt, hlog, hfacts⟩, descends_rival 11 (by decide), by decide, ?_⟩
  have hne : rivalFields.hash (false, 1) ≠ some (true, 1) ∧ rivalFields.hash (false, 1) ≠ some (true, 0) := by decide
  simp [Marked, hlog, hne.1, hne.2]

end TurboOctopus.Core
