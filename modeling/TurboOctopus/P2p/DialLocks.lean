import TurboOctopus.P2p.Dial
import TurboOctopus.Lib.Locks
/-!
# The mutexes of the dial scheduler

Every function of the scheduler takes the mutexes it needs, also where it is called by
one that has them. `expireHistory` holds `historyRDLock` and calls `updateStaticPool` for
each entry it removes, which calls `checkDial` for a static node outside the pool, which
takes all three. So the loop stops for good the first time an entry of such a node
expires (`static_expiry_relocks`), and in no other case (`dial_locks_iff`).
-/
namespace TurboOctopus.P2p

open Lib Dialer

/-- `peersRDLock`, `dialingRDLock` and `historyRDLock`. -/
inductive Mutex
  | peers
  | dialing
  | history
deriving DecidableEq

/-- The order in which they are nested. -/
def Mutex.rank : Mutex → Nat
  | .peers => 0
  | .dialing => 1
  | .history => 2

/-! ## What each function takes -/

def checkDialLocks : Sections Mutex := .hold .peers (.hold .dialing (.hold .history .skip))

def startDialLocks : Sections Mutex := .hold .dialing (.hold .history .skip)

/-- The check is made for a static node outside the pool only. -/
def Dialer.updateStaticPoolLocks (d : Dialer) (id : NodeId) : Sections Mutex :=
  if d.Waits id then checkDialLocks else .skip

/-- The callbacks of the entries that are removed. -/
def Dialer.expireLocks (d : Dialer) : List (NodeId × Nat) → Sections Mutex
  | [] => .skip
  | (id, exp) :: rest => if exp < d.now then .seq (d.updateStaticPoolLocks id) (d.expireLocks rest) else .skip

/-- What each step takes: the loop's, then those of `StartDialEnode` and `DialingCount`. -/
def Dialer.locks (d : Dialer) : DialAction → Sections Mutex
  | .freeDialSlots => .hold .dialing .skip
  | .startStatic _ => startDialLocks
  | .endStatics => .skip
  | .rearm => .hold .history .skip
  | .logStats => .hold .peers .skip
  | .node _ => checkDialLocks
  | .done _ => .hold .dialing .skip
  | .addPeer _ _ | .remPeer _ _ => .hold .peers .skip
  | .addStatic n => if n.id ∈ d.static then .skip else checkDialLocks
  | .remStatic _ => .skip
  | .historyExp => .hold .history (d.expireLocks d.history)
  | .stop => .hold .dialing .skip
  | .startNode => startDialLocks
  | .update =>
    match d.loop with
    | .updating id => d.updateStaticPoolLocks id
    | _ => .skip
  | .managerCheck => checkDialLocks
  | .managerStart => startDialLocks
  | .dialingCount => .hold .dialing .skip
  | .startDialEnode _ _ | .resolve _ _ _ | .tick _ => .skip

/-- The history entry of a static node outside the pool is removed. -/
def Dialer.ExpiresWaiting (d : Dialer) : DialAction → Prop
  | .historyExp => ∃ x ∈ d.history.takeWhile (·.2 < d.now), d.Waits x.1
  | _ => False

/-! ## Nested by rank, or taken twice -/

section Locks
variable {d t : Dialer}

lemma checkDialLocks_ascends : checkDialLocks.Ascends Mutex.rank 0 := by
  simp [checkDialLocks, Sections.Ascends, Mutex.rank]

lemma startDialLocks_ascends : startDialLocks.Ascends Mutex.rank 0 := by
  simp [startDialLocks, Sections.Ascends, Mutex.rank]

namespace Dialer

lemma updateStaticPoolLocks_ascends (id : NodeId) : (d.updateStaticPoolLocks id).Ascends Mutex.rank 0 := by
  simp only [updateStaticPoolLocks]
  split
  · exact checkDialLocks_ascends
  · trivial

/-- Callbacks that check nothing take nothing. -/
lemma expireLocks_ascends (l : List (NodeId × Nat)) (bound : Nat)
    (h : ¬ ∃ x ∈ l.takeWhile (·.2 < d.now), d.Waits x.1) : (d.expireLocks l).Ascends Mutex.rank bound := by
  induction l with
  | nil => trivial
  | cons x l ih =>
    obtain ⟨id, exp⟩ := x
    simp only [expireLocks]
    split
    · next hexp =>
      simp only [List.takeWhile_cons, hexp, decide_true, if_true, List.mem_cons, exists_eq_or_imp, not_or] at h
      refine ⟨?_, ih h.2⟩
      rw [updateStaticPoolLocks, if_neg h.1]
      trivial
    · trivial

/-- A callback that checks takes the history's mutex again. -/
lemma expireLocks_relocks (l : List (NodeId × Nat)) (h : ∃ x ∈ l.takeWhile (·.2 < d.now), d.Waits x.1) :
    (d.expireLocks l).Relocks [.history] := by
  induction l with
  | nil => simp at h
  | cons x l ih =>
    obtain ⟨id, exp⟩ := x
    by_cases hexp : exp < d.now
    · simp only [List.takeWhile_cons, hexp, decide_true, if_true, List.mem_cons, exists_eq_or_imp] at h
      simp only [expireLocks, if_pos hexp]
      rcases h with hwaits | h
      · left
        simp [updateStaticPoolLocks, hwaits, checkDialLocks, Sections.Relocks]
      · exact .inr (ih h)
    · simp [hexp] at h

lemma locks_ascends {a : DialAction} (h : ¬ d.ExpiresWaiting a) : (d.locks a).Ascends Mutex.rank 0 := by
  cases a with
  | historyExp => exact ⟨Nat.zero_le _, d.expireLocks_ascends _ _ h⟩
  | update =>
    simp only [locks]
    split
    · exact d.updateStaticPoolLocks_ascends _
    · trivial
  | addStatic n =>
    simp only [locks]
    split
    · trivial
    · exact checkDialLocks_ascends
  | node | managerCheck => exact checkDialLocks_ascends
  | startStatic | startNode | managerStart => exact startDialLocks_ascends
  | freeDialSlots | rearm | logStats | done | addPeer | remPeer | stop | dialingCount =>
    exact ⟨Nat.zero_le _, trivial⟩
  | endStatics | remStatic | startDialEnode | resolve | tick => trivial

lemma relocks_iff {a : DialAction} : (d.locks a).Relocks [] ↔ d.ExpiresWaiting a := by
  constructor
  · intro hr
    by_contra h
    exact (d.locks_ascends h).not_relocks (by simp) hr
  · intro h
    cases a with
    | historyExp => exact .inr (d.expireLocks_relocks _ h)
    | _ => exact h.elim

/-- The steps of the model and the mutexes agree: the loop is stuck after an expiry that
takes a mutex twice, and after no other. -/
lemma expire_stuck_iff (l : List (NodeId × Nat)) :
    (d.expire l).loop = .stuck ↔ ∃ x ∈ l.takeWhile (·.2 < d.now), d.Waits x.1 := by
  induction l with
  | nil => simp [expire]
  | cons x l ih =>
    obtain ⟨id, exp⟩ := x
    simp only [expire]
    split
    · next hexp =>
      simp only [List.takeWhile_cons, hexp, decide_true, if_true, List.mem_cons, exists_eq_or_imp]
      split
      · next hwaits => simp [hwaits]
      · next hwaits => simp [hwaits, ih]
    · next hexp => simp [hexp]

lemma stuck_iff_relocks (hs : d.step .historyExp = some t) : t.loop = .stuck ↔ (d.locks .historyExp).Relocks [] := by
  rw [relocks_iff]
  simp only [step, event] at hs
  split at hs
  · split at hs <;> cases hs
    exact expire_stuck_iff (d := { d with historyTimer := none }) d.history
  · cases hs

end Dialer

end Locks

/-- In every state a step takes a mutex it holds exactly if it removes the history entry of
a static node outside the pool, and without such steps the mutexes are not nested in a
cycle. -/
theorem dial_locks_iff (d : Dialer) (a : DialAction) (m : Mutex) :
    (¬ (d.locks a).Relocks [] ↔ ¬ d.ExpiresWaiting a) ∧
      ¬ Relation.TransGen
        (fun m n => ∃ (d : Dialer) (a : DialAction), ¬ d.ExpiresWaiting a ∧ (d.locks a).Nests m n []) m m := by
  refine ⟨not_congr d.relocks_iff, acyclic_of_rank Mutex.rank (fun m n hmn => ?_) m⟩
  obtain ⟨d, a, hok, hn⟩ := hmn
  exact (d.locks_ascends hok).lt_of_nests (by simp) hn

def dialConfig : DialConfig := ⟨0, 10, 10, none⟩

/-- A static node is dialed, the dial ends, and its history entry expires. -/
def staticExpires : List DialAction :=
  [.freeDialSlots, .endStatics, .rearm, .logStats, .addStatic ⟨1, some [10, 0, 0, 1], 30311⟩,
   .freeDialSlots, .startStatic 0, .endStatics, .rearm, .logStats, .done 1, .update,
   .freeDialSlots, .endStatics, .rearm, .logStats, .tick (36 * 10 ^ 9)]

/-- Then the expiry takes a mutex twice, which is also a nesting of it in itself, and the
loop does not come back from it. -/
theorem static_expiry_relocks :
    ∃ d t, Run (fun d a t => d.step a = some t) (newDialScheduler dialConfig 0) staticExpires d ∧
      d.step .historyExp = some t ∧ t.loop = .stuck ∧ (d.locks .historyExp).Relocks [] ∧
      ∃ m, Relation.TransGen (fun m n => (d.locks .historyExp).Nests m n []) m m := by
  have hfound : ∃ d, Run (fun d a t => d.step a = some t) (newDialScheduler dialConfig 0) staticExpires d ∧
      (d.step .historyExp).any (fun t => decide (t.loop = .stuck)) = true := Run.of_foldlM (by decide +kernel)
  obtain ⟨d, hrun, hd⟩ := hfound
  obtain ⟨t, ht, hstuck⟩ := (Option.any_eq_true _ _).1 hd
  have hrelocks := (d.stuck_iff_relocks ht).1 (of_decide_eq_true hstuck)
  obtain ⟨m, hm⟩ := hrelocks.nests_self
  exact ⟨d, t, hrun, ht, of_decide_eq_true hstuck, hrelocks, m, .single hm⟩

end TurboOctopus.P2p
