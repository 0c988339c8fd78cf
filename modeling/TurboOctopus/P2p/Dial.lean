import TurboOctopus.Lib.Runs
import TurboOctopus.Lib.Maps
import TurboOctopus.Lib.IndexedPool
import Mathlib.Data.List.Sort
import Mathlib.Algebra.Order.Ring.Nat
/-!
# The dial scheduler

One goroutine runs `dialScheduler.loop`, and the manager calls `StartDialEnode` from
another. What lies between taking a mutex and releasing it is one step; `static`,
`staticPool` and `dialPeers` are the loop's own, so what the loop does to them goes with
the step before. History expiry while a static node waits for it never ends (see
`DialLocks`): the loop is `stuck` from then on. Shutting down is not modelled beyond the
moment the loop is left.
-/
namespace TurboOctopus.P2p

open Lib

/-! ## Nodes and connections -/

/-- An `enode.ID`. -/
abbrev NodeId := BitVec 256

/-- An `enode.Node`, as far as dialing looks at it; a node without an address is
resolved before it is dialed. -/
structure Node where
  id : NodeId
  ip : Option (List UInt8)
  tcp : Nat
deriving DecidableEq

abbrev ConnFlag := BitVec 32

def dynDialedConn : ConnFlag := 1
def staticDialedConn : ConnFlag := 2
def inboundConn : ConnFlag := 4
def trustedConn : ConnFlag := 8

/-- `c.is(f)`. -/
def ConnFlag.is (flags f : ConnFlag) : Bool := flags &&& f != 0

/-- `c.set(f, val)`. -/
def ConnFlag.set (flags f : ConnFlag) (val : Bool) : ConnFlag := if val then flags ||| f else flags &&& ~~~f

/-- The connection was made by dialing. -/
def ConnFlag.dialed (flags : ConnFlag) : Bool := flags.is dynDialedConn || flags.is staticDialedConn

structure DialTask where
  flags : ConnFlag
  dest : Node
  dataId : Int
deriving DecidableEq

structure DialConfig where
  self : NodeId
  maxDialPeers : Int
  maxActiveDials : Int
  netRestrict : Option (Option (List UInt8) → Bool)

/-- The errors of `checkDial`. -/
inductive DialError
  | self
  | noPort
  | alreadyDialing
  | alreadyConnected
  | netRestrict
  | recentlyDialed
deriving DecidableEq

/-- How far `loop` is. -/
inductive LoopAt
  | top
  /-- In `startStaticDials`, with so many slots left. -/
  | statics (slots : Int)
  | rearming (slots : Int)
  | logging (slots : Int)
  /-- At the select; a candidate is read if there are slots. -/
  | select (slots : Int)
  /-- Between `checkDial` and `startDial` of a candidate. -/
  | starting (task : DialTask)
  /-- Before `updateStaticPool`. -/
  | updating (id : NodeId)
  | stuck
  | stopped
deriving DecidableEq

/-- How far `StartDialEnode` is. -/
inductive ManagerAt
  | idle
  | called (dest : Node) (dataId : Int)
  | starting (task : DialTask)
deriving DecidableEq

/-- In nanoseconds. -/
def dialHistoryExpiration : Nat := 35 * 10 ^ 9

/-- `history` is the heap in the order in which it is popped. `running` is not in the
source: the tasks started whose completion the loop has not received. -/
structure Dialer where
  config : DialConfig
  dialing : GoMap NodeId DialTask
  peers : Finset NodeId
  dialPeers : Int
  static : GoMap NodeId DialTask
  staticPool : Pool NodeId
  history : List (NodeId × Nat)
  historyTimer : Option Nat
  now : Nat
  loop : LoopAt
  manager : ManagerAt
  running : List NodeId

def newDialScheduler (config : DialConfig) (now : Nat) : Dialer where
  config := config
  dialing := ∅
  peers := ∅
  dialPeers := 0
  static := ∅
  staticPool := .empty
  history := []
  historyTimer := none
  now := now
  loop := .top
  manager := .idle
  running := []

/-! ## The functions of the scheduler -/

namespace Dialer

def recentlyDialed (d : Dialer) (id : NodeId) : Bool := d.history.any (·.1 = id)

def checkDial (d : Dialer) (n : Node) : Except DialError Unit :=
  if n.id = d.config.self then .error .self
  else if n.ip.isSome ∧ n.tcp = 0 then .error .noPort
  else if n.id ∈ d.dialing then .error .alreadyDialing
  else if n.id ∈ d.peers then .error .alreadyConnected
  else if d.config.netRestrict.any (fun contains => !contains n.ip) then .error .netRestrict
  else if d.recentlyDialed n.id then .error .recentlyDialed
  else .ok ()

/-- It can be negative. -/
def freeDialSlots (d : Dialer) : Int :=
  min ((d.config.maxDialPeers - d.dialPeers) * 2) d.config.maxActiveDials - d.dialing.keys.card

def startDial (d : Dialer) (task : DialTask) : Dialer :=
  { d with
    history := d.history.orderedInsert (·.2 ≤ ·.2) (task.dest.id, d.now + dialHistoryExpiration)
    dialing := d.dialing.insert task.dest.id task
    running := task.dest.id :: d.running }

/-- It is a panic to add a task twice. -/
def addToStaticPool (d : Dialer) (id : NodeId) : Dialer :=
  if h : d.staticPool.index id = none then { d with staticPool := d.staticPool.add id h } else { d with loop := .stopped }

/-- `checkDial` lets the static node into the pool, or not. -/
def poolIfDialable (d : Dialer) (id : NodeId) (dest : Node) : Dialer :=
  match d.checkDial dest with
  | .ok _ => d.addToStaticPool id
  | .error _ => d

def updateStaticPool (d : Dialer) (id : NodeId) : Dialer :=
  match d.static.lookup id with
  | none => d
  | some task => if d.staticPool.index id = none then d.poolIfDialable id task.dest else d

/-- The removal of a task by its `staticPoolIndex`, if it is in the pool. -/
def removeFromStaticPool (d : Dialer) (id : NodeId) : Dialer :=
  match h : d.staticPool.index id with
  | none => d
  | some i => { d with staticPool := d.staticPool.removeAt i (d.staticPool.lt_of_index h) }

/-- One round of `startStaticDials`, for the random index. -/
def startStaticDial (d : Dialer) (idx : Nat) : Option Dialer :=
  if h : idx < d.staticPool.items.length then
    (d.static.lookup d.staticPool.items[idx]).map fun task =>
      { d.startDial task with staticPool := d.staticPool.removeAt idx h }
  else none

/-- A static node waits for its history entry to expire. -/
def Waits (d : Dialer) (id : NodeId) : Prop := id ∈ d.static ∧ d.staticPool.index id = none

end Dialer

instance (d : Dialer) (id : NodeId) : Decidable (d.Waits id) := inferInstanceAs (Decidable (_ ∧ _))

/-- `expire` with the callback of `expireHistory`: a callback for a static node outside
the pool calls `checkDial`, which waits for the mutex that is held. -/
def Dialer.expire (d : Dialer) : List (NodeId × Nat) → Dialer
  | [] => { d with history := [], loop := .top }
  | (id, exp) :: rest =>
    if exp < d.now then
      if d.Waits id then { d with history := rest, loop := .stuck } else d.expire rest
    else { d with history := (id, exp) :: rest, loop := .top }

def Dialer.expireHistory (d : Dialer) : Dialer := { d with historyTimer := none }.expire d.history

def Dialer.rearmHistoryTimer (d : Dialer) : Dialer :=
  match d.history with
  | [] => d
  | (_, exp) :: _ => { d with historyTimer := some exp }

/-! ## Steps -/

inductive DialAction
  | freeDialSlots
  | startStatic (idx : Nat)
  | endStatics
  | rearm
  | logStats
  /-- The events of the select. -/
  | node (n : Node)
  | done (id : NodeId)
  | addPeer (id : NodeId) (flags : ConnFlag)
  | remPeer (id : NodeId) (flags : ConnFlag)
  | addStatic (n : Node)
  | remStatic (id : NodeId)
  | historyExp
  | stop
  /-- What is left of an event. -/
  | startNode
  | update
  /-- The manager's steps. -/
  | startDialEnode (dest : Node) (dataId : Int)
  | managerCheck
  | managerStart
  | dialingCount
  /-- A running static task finds the address of its node. -/
  | resolve (id : NodeId) (ip : List UInt8) (tcp : Nat)
  | tick (time : Nat)

/-- The peer's counter and its entry. -/
def Dialer.peerAdded (d : Dialer) (id : NodeId) (flags : ConnFlag) : Dialer :=
  { d with dialPeers := if flags.dialed then d.dialPeers + 1 else d.dialPeers, peers := insert id d.peers }

def Dialer.peerRemoved (d : Dialer) (id : NodeId) (flags : ConnFlag) : Dialer :=
  { d with dialPeers := if flags.dialed then d.dialPeers - 1 else d.dialPeers, peers := d.peers.erase id }

/-- The loop is at its select. -/
def Dialer.AtSelect (d : Dialer) : Prop := ∃ slots, d.loop = .select slots

instance (d : Dialer) : Decidable d.AtSelect :=
  match h : d.loop with
  | .select slots => isTrue ⟨slots, h⟩
  | .top | .statics _ | .rearming _ | .logging _ | .starting _ | .updating _ | .stuck | .stopped =>
    isFalse (by rintro ⟨slots, hs⟩; simp [h] at hs)

/-- An event of the select. -/
def Dialer.event (d : Dialer) : DialAction → Option Dialer
  | .done id =>
    if id ∈ d.running then
      some { d with running := d.running.erase id, dialing := d.dialing.erase id, loop := .updating id }
    else none
  | .addPeer id flags => some ({ d.peerAdded id flags with loop := .top }.removeFromStaticPool id)
  | .remPeer id flags => some { d.peerRemoved id flags with loop := .updating id }
  | .addStatic n =>
    if n.id ∈ d.static then some { d with loop := .top }
    else
      some ({ d with static := d.static.insert n.id ⟨staticDialedConn, n, 0⟩, loop := .top }.poolIfDialable n.id n)
  | .remStatic id => some ({ d with static := d.static.erase id, loop := .top }.removeFromStaticPool id)
  | .historyExp => if d.historyTimer.any (· ≤ d.now) then some d.expireHistory else none
  | .stop => some { d with loop := .stopped }
  | _ => none

def Dialer.step (d : Dialer) : DialAction → Option Dialer
  | .freeDialSlots => if d.loop = .top then some { d with loop := .statics d.freeDialSlots } else none
  | .startStatic idx =>
    match d.loop with
    | .statics slots =>
      if 0 < slots then (d.startStaticDial idx).map fun d' => { d' with loop := .statics (slots - 1) } else none
    | _ => none
  | .endStatics =>
    match d.loop with
    | .statics slots =>
      if slots ≤ 0 ∨ d.staticPool.items = [] then some { d with loop := .rearming slots } else none
    | _ => none
  | .rearm =>
    match d.loop with
    | .rearming slots => some { d.rearmHistoryTimer with loop := .logging slots }
    | _ => none
  | .logStats =>
    match d.loop with
    | .logging slots => some { d with loop := .select slots }
    | _ => none
  | .node n =>
    match d.loop with
    | .select slots =>
      if 0 < slots then
        match d.checkDial n with
        | .ok _ => some { d with loop := .starting ⟨dynDialedConn, n, 0⟩ }
        | .error _ => some { d with loop := .top }
      else none
    | _ => none
  | .startNode =>
    match d.loop with
    | .starting task => some { d.startDial task with loop := .top }
    | _ => none
  | .update =>
    match d.loop with
    | .updating id => some ({ d with loop := .top }.updateStaticPool id)
    | _ => none
  | .startDialEnode dest dataId =>
    if d.manager = .idle then some { d with manager := .called dest dataId } else none
  | .managerCheck =>
    match d.manager with
    | .called dest dataId =>
      if d.loop = .stuck then none
      else
        match d.checkDial dest with
        | .ok _ => some { d with manager := .starting ⟨staticDialedConn, dest, dataId⟩ }
        | .error _ => some { d with manager := .idle }
    | _ => none
  | .managerStart =>
    match d.manager with
    | .starting task => if d.loop = .stuck then none else some { d.startDial task with manager := .idle }
    | _ => none
  | .dialingCount => some d
  | .resolve id ip tcp =>
    match d.static.lookup id with
    | some task =>
      if id ∈ d.running ∧ task.dest.ip = none then
        some { d with static := d.static.insert id { task with dest := ⟨id, some ip, tcp⟩ } }
      else none
    | none => none
  | .tick time => some { d with now := d.now + time }
  | .done id => if d.AtSelect then d.event (.done id) else none
  | .addPeer id flags => if d.AtSelect then d.event (.addPeer id flags) else none
  | .remPeer id flags => if d.AtSelect then d.event (.remPeer id flags) else none
  | .addStatic n => if d.AtSelect then d.event (.addStatic n) else none
  | .remStatic id => if d.AtSelect then d.event (.remStatic id) else none
  | .historyExp => if d.AtSelect then d.event .historyExp else none
  | .stop => if d.AtSelect then d.event .stop else none

/-! ## What the functions leave alone -/

section Frame
variable {d : Dialer}

/-- A node that is not being dialed, not connected and not in the history. -/
def Dialer.Idle (d : Dialer) (id : NodeId) : Prop := id ∉ d.dialing ∧ id ∉ d.peers ∧ ∀ exp, (id, exp) ∉ d.history

open Dialer

namespace Dialer

lemma checkDial_ok {n : Node} {u : Unit} (h : d.checkDial n = .ok u) : d.Idle n.id ∧ n.id ≠ d.config.self := by
  simp only [checkDial] at h
  split_ifs at h with hself hport hdialing hpeers hrestrict hrecent
  refine ⟨⟨hdialing, hpeers, fun exp hexp => hrecent ?_⟩, hself⟩
  exact List.any_eq_true.2 ⟨_, hexp, by simp⟩

lemma mem_startDial_history {task : DialTask} {id : NodeId} {exp : Nat}
    (h : (id, exp) ∈ (d.startDial task).history) : id = task.dest.id ∨ (id, exp) ∈ d.history := by
  rcases (List.mem_orderedInsert _).1 h with h | h
  · exact .inl (Prod.ext_iff.1 h).1
  · exact .inr h

/-- Starting another node's dial leaves a node idle. -/
lemma Idle.startDial {id : NodeId} {task : DialTask} (h : d.Idle id) (hne : id ≠ task.dest.id) :
    (d.startDial task).Idle id :=
  ⟨fun hmem => (Finmap.mem_insert.1 hmem).elim hne h.1, h.2.1,
    fun exp hexp => (d.mem_startDial_history hexp).elim hne (h.2.2 exp)⟩

lemma poolIfDialable_eq (id : NodeId) (dest : Node) : d.poolIfDialable id dest = d ∨
    (∃ (h : d.staticPool.index id = none) (u : Unit), d.checkDial dest = .ok u ∧
      d.poolIfDialable id dest = { d with staticPool := d.staticPool.add id h }) ∨
    d.staticPool.index id ≠ none ∧ d.poolIfDialable id dest = { d with loop := .stopped } := by
  simp only [poolIfDialable, addToStaticPool]
  split
  · next u hok =>
    by_cases h : d.staticPool.index id = none
    · exact .inr (.inl ⟨h, u, hok, dif_pos h⟩)
    · exact .inr (.inr ⟨h, dif_neg h⟩)
  · exact .inl rfl

/-- Only a task that is not in the pool is added to it. -/
lemma updateStaticPool_eq (id : NodeId) : d.updateStaticPool id = d ∨ ∃ (h : d.staticPool.index id = none)
    (task : DialTask) (u : Unit), d.static.lookup id = some task ∧ d.checkDial task.dest = .ok u ∧
      d.updateStaticPool id = { d with staticPool := d.staticPool.add id h } := by
  simp only [updateStaticPool]
  split
  · exact .inl rfl
  · next task htask =>
    split_ifs with hnone
    · rcases d.poolIfDialable_eq id task.dest with heq | ⟨h, u, hok, heq⟩ | ⟨hsome, -⟩
      · exact .inl heq
      · exact .inr ⟨h, task, u, htask, hok, heq⟩
      · exact absurd hnone hsome
    · exact .inl rfl

lemma removeFromStaticPool_eq (id : NodeId) : ∃ pool : Pool NodeId, d.removeFromStaticPool id =
      { d with staticPool := pool } ∧ ∀ k ∈ pool.items, k ∈ d.staticPool.items ∧ k ≠ id := by
  simp only [removeFromStaticPool]
  split
  · next h =>
    refine ⟨d.staticPool, rfl, fun k hk => ⟨hk, ?_⟩⟩
    rintro rfl
    exact d.staticPool.index_eq_none_iff.1 h hk
  · next i h =>
    refine ⟨_, rfl, fun k hk => ?_⟩
    obtain ⟨hmem, hne⟩ := d.staticPool.mem_removeAt (d.staticPool.lt_of_index h) hk
    have hat := (List.getElem?_eq_some_iff.1 ((d.staticPool.index_iff id i).1 h)).2
    exact ⟨hmem, hat ▸ hne⟩

lemma rearmHistoryTimer_eq : ∃ timer, d.rearmHistoryTimer = { d with historyTimer := timer } := by
  simp only [rearmHistoryTimer]
  split
  · exact ⟨d.historyTimer, rfl⟩
  · exact ⟨_, rfl⟩

lemma expire_eq (l : List (NodeId × Nat)) : ∃ rest loop, (∀ x ∈ rest, x ∈ l) ∧ (loop = .top ∨ loop = .stuck) ∧
      d.expire l = { d with history := rest, loop := loop } := by
  induction l with
  | nil => exact ⟨[], .top, by simp, .inl rfl, rfl⟩
  | cons x l ih =>
    obtain ⟨id, exp⟩ := x
    simp only [expire]
    split
    · split
      · exact ⟨l, .stuck, fun x hx => List.mem_cons_of_mem _ hx, .inr rfl, rfl⟩
      · obtain ⟨rest, loop, hrest, hloop, h⟩ := ih
        exact ⟨rest, loop, fun x hx => List.mem_cons_of_mem _ (hrest x hx), hloop, h⟩
    · exact ⟨_, .top, fun x hx => hx, .inl rfl, rfl⟩

end Dialer

end Frame

/-! ## What a step does to the tasks and the peers -/

/-- The node the loop has checked and is about to dial. -/
def LoopAt.checked : LoopAt → Option NodeId
  | .starting task => some task.dest.id
  | .top | .statics _ | .rearming _ | .logging _ | .select _ | .updating _ | .stuck | .stopped => none

def ManagerAt.task : ManagerAt → Option DialTask
  | .starting task => some task
  | .idle | .called _ _ => none

/-- The step starts the dial of a node: from the pool, of a candidate, or for the manager. -/
def Dialer.Starts (d : Dialer) (id : NodeId) : DialAction → Prop
  | .startStatic _ => ∃ k ∈ d.staticPool.items, ∃ task, d.static.lookup k = some task ∧ task.dest.id = id
  | .startNode => d.loop.checked = some id
  | .managerStart => ∃ task ∈ d.manager.task, task.dest.id = id
  | _ => False

/-- The loop's events that are for a peer's coming and going. -/
def DialAction.ofPeers : DialAction → Bool
  | .addPeer _ _ | .remPeer _ _ => true
  | _ => false

/-- What a step turns the scheduler into. -/
inductive Dialer.Turns (d : Dialer) : DialAction → Dialer → Prop
  | freeDialSlots : d.Turns .freeDialSlots { d with loop := .statics d.freeDialSlots }
  | startStatic {idx : Nat} {slots : Int} {task : DialTask} (hloop : d.loop = .statics slots)
    (hidx : idx < d.staticPool.items.length) (htask : d.static.lookup d.staticPool.items[idx] = some task) :
    d.Turns (.startStatic idx)
      { d.startDial task with staticPool := d.staticPool.removeAt idx hidx, loop := .statics (slots - 1) }
  | endStatics {slots : Int} (hend : slots ≤ 0 ∨ d.staticPool.items = []) : d.Turns .endStatics { d with loop := .rearming slots }
  | rearm {slots : Int} (hloop : d.loop = .rearming slots) (timer : Option Nat) :
    d.Turns .rearm { d with historyTimer := timer, loop := .logging slots }
  | logStats {slots : Int} (hloop : d.loop = .logging slots) : d.Turns .logStats { d with loop := .select slots }
  | node {n : Node} {slots : Int} {u : Unit} (hloop : d.loop = .select slots) (hpos : 0 < slots) (hcheck : d.checkDial n = .ok u) :
    d.Turns (.node n) { d with loop := .starting ⟨dynDialedConn, n, 0⟩ }
  | refuse (n : Node) : d.Turns (.node n) { d with loop := .top }
  | startNode {task : DialTask} (hloop : d.loop = .starting task) : d.Turns .startNode { d.startDial task with loop := .top }
  | update (id : NodeId) : d.Turns .update ({ d with loop := .top }.updateStaticPool id)
  | manager {a : DialAction} (m : ManagerAt) (ha : a.ofPeers = false) : d.Turns a { d with manager := m }
  | managerStart {task : DialTask} (hmanager : d.manager = .starting task) :
    d.Turns .managerStart { d.startDial task with manager := .idle }
  | resolve {id : NodeId} (ip : List UInt8) (tcp : Nat) {task : DialTask} (hrunning : id ∈ d.running) :
    d.Turns (.resolve id ip tcp) { d with static := d.static.insert id { task with dest := ⟨id, some ip, tcp⟩ } }
  | tick (time : Nat) : d.Turns (.tick time) { d with now := d.now + time }
  | done (id : NodeId) :
    d.Turns (.done id) { d with running := d.running.erase id, dialing := d.dialing.erase id, loop := .updating id }
  | addPeer (id : NodeId) (flags : ConnFlag) :
    d.Turns (.addPeer id flags) ({ d.peerAdded id flags with loop := .top }.removeFromStaticPool id)
  | remPeer (id : NodeId) (flags : ConnFlag) : d.Turns (.remPeer id flags) { d.peerRemoved id flags with loop := .updating id }
  | known (n : Node) : d.Turns (.addStatic n) { d with loop := .top }
  | addStatic {n : Node} (hnew : n.id ∉ d.static) : d.Turns (.addStatic n)
      ({ d with static := d.static.insert n.id ⟨staticDialedConn, n, 0⟩, loop := .top }.poolIfDialable n.id n)
  | remStatic (id : NodeId) :
    d.Turns (.remStatic id) ({ d with static := d.static.erase id, loop := .top }.removeFromStaticPool id)
  | historyExp {rest : List (NodeId × Nat)} {loop : LoopAt} (hrest : ∀ x ∈ rest, x ∈ d.history)
    (hloop : loop = .top ∨ loop = .stuck) : d.Turns .historyExp { d with historyTimer := none, history := rest, loop := loop }
  | stop : d.Turns .stop { d with loop := .stopped }

inductive Dialer.Effect (d t : Dialer) : DialAction → Prop
  | quiet {a : DialAction} : a.ofPeers = false → t.peers = d.peers → t.dialPeers = d.dialPeers →
    t.running = d.running → d.Effect t a
  | done (id : NodeId) : t.peers = d.peers → t.dialPeers = d.dialPeers → t.running = d.running.erase id →
    d.Effect t (.done id)
  | starts {a : DialAction} (id : NodeId) : t.peers = d.peers → t.dialPeers = d.dialPeers →
    t.running = id :: d.running → d.Starts id a → d.Effect t a
  | addPeer (id : NodeId) (flags : ConnFlag) : t.peers = (d.peerAdded id flags).peers →
    t.dialPeers = (d.peerAdded id flags).dialPeers → t.running = d.running → d.Effect t (.addPeer id flags)
  | remPeer (id : NodeId) (flags : ConnFlag) : t.peers = (d.peerRemoved id flags).peers →
    t.dialPeers = (d.peerRemoved id flags).dialPeers → t.running = d.running → d.Effect t (.remPeer id flags)

section Effect
variable {d t : Dialer} {a : DialAction}

lemma Dialer.turns_of_step (hs : d.step a = some t) : d.Turns a t := by
  cases a with
  | startStatic idx =>
    simp only [step, startStaticDial] at hs
    split at hs
    next hloop =>
      split_ifs at hs with hpos hidx
      · simp only [Option.map_map, Option.map_eq_some_iff, Function.comp] at hs
        obtain ⟨task, htask, rfl⟩ := hs
        exact .startStatic hloop hidx htask
      · cases hs
    · cases hs
  | rearm =>
    obtain ⟨timer, heq⟩ := d.rearmHistoryTimer_eq
    simp only [step, heq] at hs
    grind [Turns.rearm]
  | historyExp =>
    obtain ⟨rest, loop, hrest, hloop, heq⟩ := { d with historyTimer := none }.expire_eq d.history
    simp only [step, event, expireHistory, heq] at hs
    grind [Turns.historyExp]
  | dialingCount =>
    cases hs
    exact .manager d.manager rfl
  | startDialEnode | managerCheck =>
    simp only [step] at hs
    grind [Turns.manager, DialAction.ofPeers]
  | _ =>
    simp only [step, event] at hs
    grind [Turns]

lemma Dialer.effect_of_step (hs : d.step a = some t) : d.Effect t a := by
  cases turns_of_step hs with
  | startStatic hloop hidx htask => exact .starts _ rfl rfl rfl ⟨_, List.getElem_mem hidx, _, htask, rfl⟩
  | startNode hloop => exact .starts _ rfl rfl rfl (by rw [Dialer.Starts, hloop]; rfl)
  | managerStart hmanager => exact .starts _ rfl rfl rfl ⟨_, by rw [hmanager]; rfl, rfl⟩
  | update id =>
    rcases { d with loop := .top }.updateStaticPool_eq id with heq | ⟨_, _, _, -, -, heq⟩ <;> rw [heq] <;>
      exact .quiet rfl rfl rfl rfl
  | done id => exact .done id rfl rfl rfl
  | addPeer id flags =>
    obtain ⟨pool, heq, -⟩ := { d.peerAdded id flags with loop := .top }.removeFromStaticPool_eq id
    rw [heq]
    exact .addPeer id flags rfl rfl rfl
  | remPeer id flags => exact .remPeer id flags rfl rfl rfl
  | @addStatic n =>
    rcases poolIfDialable_eq (d := { d with
        static := d.static.insert n.id ⟨staticDialedConn, n, 0⟩, loop := .top }) n.id n with heq | ⟨_, _, -, heq⟩ | ⟨-, heq⟩ <;>
      rw [heq] <;> exact .quiet rfl rfl rfl rfl
  | remStatic id =>
    obtain ⟨pool, heq, -⟩ := { d with static := d.static.erase id, loop := .top }.removeFromStaticPool_eq id
    rw [heq]
    exact .quiet rfl rfl rfl rfl
  | manager m ha => exact .quiet ha rfl rfl rfl
  | _ => exact .quiet rfl rfl rfl rfl

end Effect

end TurboOctopus.P2p
