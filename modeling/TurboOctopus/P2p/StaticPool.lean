import TurboOctopus.P2p.OneDial
/-!
# The static pool

A task waits in the pool as long as it can be dialed. Without calls of `StartDialEnode`
every pooled task is the one registered under its id and passes `checkDial`, so adding a
task finds it outside the pool and removing one finds it at its index.
-/
namespace TurboOctopus.P2p

open Lib Finmap Dialer

/-- What `checkDial` asks of a node whatever the scheduler does. -/
def DialConfig.Allows (c : DialConfig) (n : Node) : Prop :=
  n.id ≠ c.self ∧ ¬ (n.ip.isSome ∧ n.tcp = 0) ∧ c.netRestrict.any (fun contains => !contains n.ip) = false

def Dialer.Pooled (d : Dialer) : Prop :=
  ∀ id ∈ d.staticPool.items, ∃ task, d.static.lookup id = some task ∧ d.config.Allows task.dest

/-- The steps of `StartDialEnode`. -/
def DialAction.ofManager : DialAction → Bool
  | .startDialEnode _ _ | .managerCheck | .managerStart => true
  | _ => false

section Pooled
variable {d t : Dialer} {n : Node} {a : DialAction}

namespace Dialer

lemma checkDial_iff : d.checkDial n = .ok () ↔ d.config.Allows n ∧ d.Idle n.id := by
  constructor
  · intro h
    refine ⟨?_, (d.checkDial_ok h).1⟩
    simp only [checkDial] at h
    split_ifs at h with hself hport _ _ hrestrict _
    exact ⟨hself, hport, by simpa using hrestrict⟩
  · rintro ⟨⟨hself, hport, hrestrict⟩, hdialing, hpeers, hhistory⟩
    have hrecent : d.recentlyDialed n.id = false := by
      rw [recentlyDialed, List.any_eq_false]
      rintro ⟨id, exp⟩ hmem hid
      exact hhistory exp (of_decide_eq_true hid ▸ hmem)
    rw [checkDial, if_neg hself, if_neg hport, if_neg hdialing, if_neg hpeers, if_neg (by simp [hrestrict]),
      if_neg (by simp [hrecent])]

/-- The pool loses tasks at most. -/
lemma Pooled.of_subset (h : d.Pooled) (hc : t.config = d.config) (hs : t.static = d.static)
    (hsub : ∀ id ∈ t.staticPool.items, id ∈ d.staticPool.items) : t.Pooled := by
  intro id hid
  rw [hc, hs]
  exact h id (hsub id hid)

lemma Pooled.add (h : d.Pooled) {id : NodeId} (hnone : d.staticPool.index id = none) {task : DialTask}
    (htask : d.static.lookup id = some task) (hok : d.checkDial task.dest = .ok ()) :
    { d with staticPool := d.staticPool.add id hnone }.Pooled := by
  intro k hk
  rcases (d.staticPool.mem_add hnone).1 hk with hk | rfl
  · exact h k hk
  · exact ⟨task, htask, (checkDial_iff.1 hok).1⟩

lemma Pooled.removeFromStaticPool (h : d.Pooled) (id : NodeId) : (d.removeFromStaticPool id).Pooled := by
  obtain ⟨pool, heq, hpool⟩ := d.removeFromStaticPool_eq id
  rw [heq]
  exact h.of_subset rfl rfl fun k hk => (hpool k hk).1

lemma Pooled.step (h : d.Pooled) (hsound : d.Sound) (hs : d.step a = some t) : t.Pooled := by
  cases turns_of_step hs with
  | startStatic _ hidx => exact h.of_subset rfl rfl fun k hk => (d.staticPool.mem_removeAt hidx hk).1
  | update id =>
    rcases { d with loop := .top }.updateStaticPool_eq id with heq | ⟨hnone, task, u, htask, hok, heq⟩ <;> rw [heq]
    · exact h
    · exact Pooled.add (d := { d with loop := .top }) h hnone htask hok
  | @resolve id _ _ _ hrunning =>
    intro k hk
    -- a running task is not in the pool
    have hne : k ≠ id := by
      rintro rfl
      exact (hsound.pool k hk).1 ((hsound.running k).1 hrunning)
    obtain ⟨task', htask', hallows⟩ := h k hk
    exact ⟨task', (lookup_insert_of_ne _ hne).trans htask', hallows⟩
  | addPeer id flags => exact Pooled.removeFromStaticPool (d := { d.peerAdded id flags with loop := .top }) h id
  | @addStatic n hnew =>
    have hkept : { d with static := d.static.insert n.id ⟨staticDialedConn, n, 0⟩, loop := .top }.Pooled := by
      intro k hk
      obtain ⟨task, htask, hallows⟩ := h k hk
      have hne : k ≠ n.id := by
        rintro rfl
        exact hnew (mem_of_lookup_eq_some htask)
      exact ⟨task, (lookup_insert_of_ne _ hne).trans htask, hallows⟩
    rcases poolIfDialable_eq (d := { d with
        static := d.static.insert n.id ⟨staticDialedConn, n, 0⟩, loop := .top }) n.id n with
      heq | ⟨hnone, u, hok, heq⟩ | ⟨-, heq⟩ <;> rw [heq]
    · exact hkept
    · exact hkept.add hnone (lookup_insert _) hok
    · exact hkept
  | remStatic id =>
    obtain ⟨pool, heq, hpool⟩ := { d with static := d.static.erase id, loop := .top }.removeFromStaticPool_eq id
    rw [heq]
    intro k hk
    obtain ⟨task, htask, hallows⟩ := h k (hpool k hk).1
    exact ⟨task, (lookup_erase_ne (hpool k hk).2).trans htask, hallows⟩
  | _ => exact h

end Dialer

end Pooled

end TurboOctopus.P2p
