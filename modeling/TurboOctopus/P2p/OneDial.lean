import TurboOctopus.P2p.Dial
/-!
# One dial per node

The loop checks a node and dials it, and nothing of its own comes between. The manager
checks and dials in two steps from another goroutine: the loop may have dialed or
connected the node in between, may be between its own check and dial of it, or may have
it waiting in the static pool, from where it is dialed without another check
(`dialed_twice`). As long as the manager's dial starts in none of these cases, a node
has one task at most, the tasks are those in `dialing`, and no connected or recently
dialed node is dialed (`one_dial_per_node`).
-/
namespace TurboOctopus.P2p

open Lib List

/-- The slots left after the static dials. -/
def LoopAt.slotsLeft : LoopAt → Option Int
  | .rearming slots | .logging slots | .select slots => some slots
  | .top | .statics _ | .starting _ | .updating _ | .stuck | .stopped => none

/-- When the manager's dial starts, the check of its node still passes, the node does not
wait in the static pool, and the loop is not about to dial it. -/
def Dialer.Orderly (d : Dialer) : DialAction → Prop
  | .managerStart => ∀ task ∈ d.manager.task, d.checkDial task.dest = .ok () ∧
      task.dest.id ∉ d.staticPool.items ∧ d.loop.checked ≠ some task.dest.id
  | _ => True

instance (d : Dialer) : (a : DialAction) → Decidable (d.Orderly a)
  | .managerStart => inferInstanceAs (Decidable (∀ task ∈ d.manager.task, d.checkDial task.dest = .ok () ∧
      task.dest.id ∉ d.staticPool.items ∧ d.loop.checked ≠ some task.dest.id))
  | .freeDialSlots | .startStatic _ | .endStatics | .rearm | .logStats | .node _ | .done _ | .addPeer _ _ | .remPeer _ _
  | .addStatic _ | .remStatic _ | .historyExp | .stop | .startNode | .update | .startDialEnode _ _ | .managerCheck
  | .dialingCount | .resolve _ _ _ | .tick _ => inferInstanceAs (Decidable True)

/-- The invariant of orderly runs. -/
structure Dialer.Sound (d : Dialer) : Prop where
  distinct : d.running.Nodup
  running : ∀ id, id ∈ d.running ↔ id ∈ d.dialing
  static : ∀ id task, d.static.lookup id = some task → task.dest.id = id
  pool : ∀ id ∈ d.staticPool.items, d.Idle id
  slots : ∀ slots, d.loop.slotsLeft = some slots → 0 < slots → d.staticPool.items = []
  checked : ∀ id, d.loop.checked = some id → d.Idle id ∧ d.staticPool.items = []

lemma Dialer.sound_new (config : DialConfig) (now : Nat) : (newDialScheduler config now).Sound where
  distinct := nodup_nil
  running id := by simp [newDialScheduler, Finmap.notMem_empty]
  static id task h := by simp [newDialScheduler] at h
  pool id h := by simp [newDialScheduler, Pool.empty] at h
  slots slots h := by cases h
  checked id h := by cases h

section Sound
variable {d t : Dialer}

namespace Dialer

section
variable (h : d.Sound)
include h

/-- The loop goes on; what it knows of the pool is to be shown. -/
lemma Sound.setLoop (l : LoopAt)
    (hslots : ∀ slots, l.slotsLeft = some slots → 0 < slots → d.staticPool.items = [])
    (hchecked : ∀ id, l.checked = some id → d.Idle id ∧ d.staticPool.items = []) : { d with loop := l }.Sound :=
  { h with slots := hslots, checked := hchecked }

/-- It knows nothing of the pool where it has no slots left and no node checked. -/
lemma Sound.setLoop_of_none {l : LoopAt} (hs : l.slotsLeft = none) (hc : l.checked = none) :
    { d with loop := l }.Sound :=
  h.setLoop l (by simp [hs]) (by simp [hc])

lemma Sound.setManager (m : ManagerAt) : { d with manager := m }.Sound :=
  { h with }

lemma Sound.setPool (pool : Pool NodeId) (hpool : ∀ id ∈ pool.items, id ∈ d.staticPool.items) :
    { d with staticPool := pool }.Sound := by
  have hnil : d.staticPool.items = [] → pool.items = [] := fun he =>
    eq_nil_iff_forall_not_mem.2 fun id hid => by simpa [he] using hpool id hid
  exact ⟨h.distinct, h.running, h.static, fun id hid => h.pool id (hpool id hid),
    fun slots hs hpos => hnil (h.slots slots hs hpos), fun id hid => (h.checked id hid).imp_right hnil⟩

/-- A dial of an idle node that is nowhere else about to be dialed. -/
lemma Sound.startDial {task : DialTask} (hidle : d.Idle task.dest.id)
    (hpool : task.dest.id ∉ d.staticPool.items) (hchecked : d.loop.checked ≠ some task.dest.id) :
    (d.startDial task).Sound where
  __ := h
  distinct := nodup_cons.2 ⟨fun hmem => hidle.1 ((h.running _).1 hmem), h.distinct⟩
  running id := by
    rw [Dialer.startDial, mem_cons, Finmap.mem_insert, h.running]
  pool id hid := by
    refine (h.pool id hid).startDial ?_
    rintro rfl
    exact hpool hid
  checked id hid := by
    obtain ⟨hidle, hnil⟩ := h.checked id hid
    refine ⟨hidle.startDial ?_, hnil⟩
    rintro rfl
    exact hchecked hid

lemma Sound.add {dest : Node} {u : Unit} (hnone : d.staticPool.index dest.id = none) (hok : d.checkDial dest = .ok u)
    (hs : d.loop.slotsLeft = none) (hc : d.loop.checked = none) :
    { d with staticPool := d.staticPool.add dest.id hnone }.Sound := by
  refine ⟨h.distinct, h.running, h.static, fun k hk => ?_, by simp [hs], by simp [hc]⟩
  rcases (d.staticPool.mem_add hnone).1 hk with hk | rfl
  · exact h.pool k hk
  · exact (d.checkDial_ok hok).1

lemma Sound.removeFromStaticPool (id : NodeId) : (d.removeFromStaticPool id).Sound := by
  obtain ⟨pool, heq, hpool⟩ := d.removeFromStaticPool_eq id
  rw [heq]
  exact h.setPool pool fun k hk => (hpool k hk).1

/-- Tasks, peers or history entries that go leave idle what was. -/
lemma Sound.of_idle (hdistinct : t.running.Nodup)
    (hrunning : ∀ id, id ∈ t.running ↔ id ∈ t.dialing) (hidle : ∀ id, d.Idle id → t.Idle id)
    (hstatic : t.static = d.static) (hpool : t.staticPool = d.staticPool) (hloop : t.loop = d.loop) : t.Sound where
  distinct := hdistinct
  running := hrunning
  static := hstatic ▸ h.static
  pool id hid := hidle id (h.pool id (hpool ▸ hid))
  slots := by rw [hpool, hloop]; exact h.slots
  checked id hid := by
    rw [hloop] at hid
    rw [hpool]
    exact (h.checked id hid).imp_left (hidle id)

lemma Sound.done (id : NodeId) :
    { d with running := d.running.erase id, dialing := d.dialing.erase id }.Sound := by
  refine h.of_idle (h.distinct.erase id) (fun k => ?_) (fun k hk => ?_) rfl rfl rfl
  · rw [h.distinct.mem_erase_iff, Finmap.mem_erase, h.running]
  · exact ⟨fun hmem => hk.1 (Finmap.mem_erase.1 hmem).2, hk.2⟩

lemma Sound.peerRemoved (id : NodeId) (flags : ConnFlag) : (d.peerRemoved id flags).Sound :=
  h.of_idle h.distinct h.running (fun _ hk => ⟨hk.1, fun hmem => hk.2.1 (Finset.mem_erase.1 hmem).2, hk.2.2⟩) rfl rfl rfl

/-- A peer that connects leaves the pool. -/
lemma Sound.peerAdded (id : NodeId) (flags : ConnFlag) :
    ({ d.peerAdded id flags with loop := .top }.removeFromStaticPool id).Sound := by
  obtain ⟨pool, heq, hpool⟩ := { d.peerAdded id flags with loop := .top }.removeFromStaticPool_eq id
  rw [heq]
  refine ⟨h.distinct, h.running, h.static, fun k hk => ?_, by simp [LoopAt.slotsLeft], by simp [LoopAt.checked]⟩
  obtain ⟨hmem, hne⟩ := hpool k hk
  have hidle := h.pool k hmem
  exact ⟨hidle.1, fun hp => (Finset.mem_insert.1 hp).elim hne hidle.2.1, hidle.2.2⟩

lemma Sound.setStatic (static : GoMap NodeId DialTask)
    (hstatic : ∀ id task, static.lookup id = some task → task.dest.id = id) : { d with static := static }.Sound :=
  { h with static := hstatic }

end

lemma Sound.step {a : DialAction} (h : d.Sound) (hs : Guarded Dialer.Orderly Dialer.step d a t) : t.Sound := by
  obtain ⟨hok, hs⟩ := hs
  cases turns_of_step hs with
  | startStatic hloop hidx htask =>
    have hid := h.static _ _ htask
    have hremoved : { d with staticPool := d.staticPool.removeAt _ hidx }.Sound :=
      h.setPool _ fun k hk => (d.staticPool.mem_removeAt hidx hk).1
    refine (hremoved.startDial ?_ (fun hmem => ?_) (by simp [hloop, LoopAt.checked])).setLoop_of_none rfl rfl
    · exact hid ▸ h.pool _ (getElem_mem hidx)
    · exact (d.staticPool.mem_removeAt hidx hmem).2 hid
  | endStatics hend =>
    -- the static dials end for lack of slots or of tasks
    refine h.setLoop _ (fun n hn hpos => ?_) (by simp [LoopAt.checked])
    cases hn
    exact hend.resolve_left (by omega)
  | rearm hloop timer =>
    have htimer : { d with historyTimer := timer }.Sound :=
      h.of_idle h.distinct h.running (fun _ hid => hid) rfl rfl rfl
    refine htimer.setLoop _ (fun n hn => ?_) (by simp [LoopAt.checked])
    cases hn
    exact h.slots _ (by rw [hloop]; rfl)
  | logStats hloop =>
    refine h.setLoop _ (fun n hn => ?_) (by simp [LoopAt.checked])
    cases hn
    exact h.slots _ (by rw [hloop]; rfl)
  | node hloop hpos hcheck =>
    refine h.setLoop _ (by simp [LoopAt.slotsLeft]) fun id hid => ?_
    cases hid
    exact ⟨(d.checkDial_ok hcheck).1, h.slots _ (by rw [hloop]; rfl) hpos⟩
  | @startNode task hloop =>
    obtain ⟨hidle, hnil⟩ := h.checked task.dest.id (by rw [hloop]; rfl)
    exact (h.setLoop_of_none (l := .top) rfl rfl).startDial hidle (by simp [hnil]) (by simp [LoopAt.checked])
  | update id =>
    have htop : { d with loop := .top }.Sound := h.setLoop_of_none rfl rfl
    rcases { d with loop := .top }.updateStaticPool_eq id with heq | ⟨hnone, task, u, htask, hok, heq⟩ <;> rw [heq]
    · exact htop
    · obtain rfl := h.static id task htask
      exact htop.add hnone hok rfl rfl
  | manager m => exact h.setManager m
  | managerStart hmanager =>
    obtain ⟨hcheck, hpool, hchecked⟩ := hok _ (by rw [hmanager]; rfl)
    exact (h.startDial (d.checkDial_ok hcheck).1 hpool hchecked).setManager _
  | resolve =>
    refine h.setStatic _ fun k task hl => ?_
    rcases lookup_insert_iff.1 hl with ⟨rfl, rfl⟩ | ⟨-, hl⟩
    · rfl
    · exact h.static k task hl
  | tick => exact h.of_idle h.distinct h.running (fun _ hid => hid) rfl rfl rfl
  | done id => exact (h.done id).setLoop_of_none rfl rfl
  | addPeer id flags => exact h.peerAdded id flags
  | remPeer id flags => exact (h.peerRemoved id flags).setLoop_of_none rfl rfl
  | @addStatic n =>
    have hstatic : { d with static := d.static.insert n.id ⟨staticDialedConn, n, 0⟩ }.Sound := by
      refine h.setStatic _ fun id task hl => ?_
      rcases lookup_insert_iff.1 hl with ⟨rfl, rfl⟩ | ⟨-, hl⟩
      · rfl
      · exact h.static id task hl
    have htop := hstatic.setLoop_of_none (l := .top) rfl rfl
    rcases poolIfDialable_eq (d := { d with
        static := d.static.insert n.id ⟨staticDialedConn, n, 0⟩, loop := .top }) n.id n with
      heq | ⟨hnone, u, hok, heq⟩ | ⟨-, heq⟩ <;> rw [heq]
    · exact htop
    · exact htop.add hnone hok rfl rfl
    · exact htop.setLoop_of_none rfl rfl
  | remStatic id =>
    have herase : { d with static := d.static.erase id }.Sound :=
      h.setStatic _ fun k task hl => h.static k task (lookup_erase_iff.1 hl).2
    exact (herase.setLoop_of_none (l := .top) rfl rfl).removeFromStaticPool id
  | @historyExp rest _ hrest hloop =>
    have hless : { d with historyTimer := none, history := rest }.Sound :=
      h.of_idle h.distinct h.running (fun id hid => ⟨hid.1, hid.2.1, fun exp hexp => hid.2.2 exp (hrest _ hexp)⟩)
        rfl rfl rfl
    rcases hloop with rfl | rfl
    · exact hless.setLoop_of_none rfl rfl
    · exact hless.setLoop_of_none rfl rfl
  | freeDialSlots | refuse | known | stop => exact h.setLoop_of_none rfl rfl

end Dialer

end Sound

section Starts
variable {d : Dialer} {a : DialAction}

lemma Dialer.Sound.idle_of_starts {id : NodeId} (h : d.Sound) (hok : d.Orderly a) (hs : d.Starts id a) : d.Idle id := by
  cases a with
  | startStatic idx =>
    obtain ⟨k, hk, task, htask, rfl⟩ := hs
    exact (h.static k task htask).symm ▸ h.pool k hk
  | startNode => exact (h.checked id hs).1
  | managerStart =>
    obtain ⟨task, htask, rfl⟩ := hs
    exact (d.checkDial_ok (hok task htask).1).1
  | _ => exact hs.elim

end Starts

/-- In every orderly run: no node has two tasks running, `dialing` has as many entries as
tasks are running, and no step starts the dial of a node that is connected or in the
dial history. -/
theorem one_dial_per_node {config : DialConfig} {now : Nat} {d : Dialer} {es : List DialAction}
    (hrun : Run (Guarded Dialer.Orderly Dialer.step) (newDialScheduler config now) es d) :
    d.running.Nodup ∧ d.dialing.keys.card = d.running.length ∧
      ∀ a t id, Guarded Dialer.Orderly Dialer.step d a t → d.running.count id < t.running.count id →
        id ∉ d.peers ∧ ∀ exp, (id, exp) ∉ d.history := by
  have h : d.Sound := hrun.inv _ (Dialer.sound_new config now) fun _ _ _ h hs => h.step hs
  refine ⟨h.distinct, ?_, fun a t id ht hlt => ?_⟩
  · rw [← toFinset_card_of_nodup h.distinct]
    congr 1
    ext id
    rw [Finmap.mem_keys, mem_toFinset, h.running]
  · cases Dialer.effect_of_step ht.2 with
    | quiet _ _ _ heq | addPeer _ _ _ _ heq | remPeer _ _ _ _ heq =>
      rw [heq] at hlt
      omega
    | done k _ _ heq =>
      rw [heq] at hlt
      have hle := (erase_sublist (a := k) (l := d.running)).count_le id
      omega
    | starts k _ _ heq hstarts =>
      rw [heq, count_cons] at hlt
      have hk : k = id := by
        by_contra hne
        simp [hne] at hlt
      exact (h.idle_of_starts ht.1 (hk ▸ hstarts)).2

def openConfig : DialConfig := ⟨0, 10, 10, none⟩

/-- The loop comes to its select. -/
def toSelect : List DialAction := [.freeDialSlots, .endStatics, .rearm, .logStats]

/-- A candidate of the loop and a node of the manager, one after the other. -/
def dialBoth : List DialAction :=
  toSelect ++ ([.node ⟨1, some [10, 0, 0, 1], 30311⟩, .startNode,
    .startDialEnode ⟨2, some [10, 0, 0, 2], 30311⟩ 0, .managerCheck, .managerStart] : List DialAction)

theorem dial_both_sound :
    ∃ d, Run (Guarded Dialer.Orderly Dialer.step) (newDialScheduler openConfig 0) dialBoth d ∧ d.running = [2, 1] ∧
      (d.running.Nodup ∧ d.dialing.keys.card = d.running.length ∧
        ∀ a t id, Guarded Dialer.Orderly Dialer.step d a t → d.running.count id < t.running.count id →
          id ∉ d.peers ∧ ∀ exp, (id, exp) ∉ d.history) := by
  have hfound : ∃ d, Run (Guarded Dialer.Orderly Dialer.step) (newDialScheduler openConfig 0) dialBoth d ∧
      decide (d.running = [2, 1]) = true := Run.of_guarded (by decide +kernel)
  obtain ⟨d, hrun, hd⟩ := hfound
  exact ⟨d, hrun, of_decide_eq_true hd, one_dial_per_node hrun⟩

/-- The manager checks a node that the loop dials before the manager does. -/
def dialAcross : List DialAction :=
  toSelect ++ ([.startDialEnode ⟨1, some [10, 0, 0, 1], 30311⟩ 0, .managerCheck,
    .node ⟨1, some [10, 0, 0, 1], 30311⟩, .startNode, .managerStart] : List DialAction)

/-- Two tasks dial the node, and `dialing` has one of them. -/
theorem dialed_twice :
    ∃ d, Run (fun d a t => d.step a = some t) (newDialScheduler openConfig 0) dialAcross d ∧
      ¬ d.running.Nodup ∧ d.dialing.keys.card ≠ d.running.length := by
  have hfound : ∃ d, Run (fun d a t => d.step a = some t) (newDialScheduler openConfig 0) dialAcross d ∧
      decide (¬ d.running.Nodup ∧ d.dialing.keys.card ≠ d.running.length) = true := Run.of_foldlM (by decide +kernel)
  obtain ⟨d, hrun, hd⟩ := hfound
  exact ⟨d, hrun, of_decide_eq_true hd⟩

end TurboOctopus.P2p
