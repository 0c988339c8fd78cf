import TurboOctopus.State.PoolStep
/-!
# Blocks that share a pool

The execution of a block reads the pool, the prefetchers run transactions on copies of its
state and write to the pool. A run interleaves their steps in any way.
-/
namespace TurboOctopus.State

open Lib TurboOctopus.Types

/-- What the execution of a block does with its state. -/
inductive Action
  | op (operation : Op)
  | prepare (thash : Hash) (ti : Nat)
  | finalise (deleteEmptyObjects : Bool)

def Action.apply (b : Backend) (s : StateDB) : Action → Except Panic StateDB
  | .op operation => operation.apply b s
  | .prepare thash ti => .ok (s.prepare thash ti)
  | .finalise deleteEmptyObjects => .ok (s.finalise b deleteEmptyObjects)

def Action.Creates (b : Backend) (s : StateDB) (addr : Address) : Action → Prop
  | .op operation => operation.Creates b s addr
  | _ => False

/-- A step of the block's execution or of a prefetcher, or a prefetcher copies the state. -/
inductive Turn
  | main (action : Action)
  | prefetch (i : Nat) (action : Action)
  | copy (i : Nat)

/-- The states that share a pool. The `shared` of a state is replaced by the pool when it
takes its turn. -/
structure Sharing where
  main : StateDB
  prefetchers : Nat → Option StateDB
  pool : Address → Storage

namespace Sharing

variable (b : Backend)

/-- Opened by `NewWithSharedPool`. -/
def start (s : StateDB) : Sharing := ⟨s, fun _ => none, fun _ _ => none⟩

def step (y : Sharing) : Turn → Except Panic Sharing
  | .main action => do
    let s ← action.apply (b.sharing false) { y.main with shared := y.pool }
    return { y with main := s, pool := s.shared }
  | .prefetch i action =>
    match y.prefetchers i with
    | none => .ok y
    | some p => do
      let s ← action.apply (b.sharing true) { p with shared := y.pool }
      return { y with prefetchers := Function.update y.prefetchers i (some s), pool := s.shared }
  | .copy i => .ok { y with prefetchers := Function.update y.prefetchers i (some y.main.copy) }

def run (y : Sharing) (turns : List Turn) : Except Panic Sharing := turns.foldlM (step b) y

/-- The state whose turn it is creates an account. -/
def Creates (y : Sharing) (addr : Address) : Turn → Prop
  | .main action => action.Creates b y.main addr
  | .prefetch i action => ∃ p, y.prefetchers i = some p ∧ action.Creates b p addr
  | .copy _ => False

/-- In no step of the run is an account created where the root has one with storage. -/
def Permits : Sharing → List Turn → Prop
  | _, [] => True
  | y, turn :: turns =>
    (∀ addr, y.Creates b addr turn → Barren b addr) ∧ ∀ y', y.step b turn = .ok y' → Permits y' turns

/-- What `main` reads of a slot. -/
def getState (y : Sharing) (addr : Address) (key : Hash) : Hash :=
  (StateDB.getState (b.sharing false) { y.main with shared := y.pool } addr key).1

def getCommittedState (y : Sharing) (addr : Address) (key : Hash) : Hash :=
  (StateDB.getCommittedState (b.sharing false) { y.main with shared := y.pool } addr key).1

end Sharing

/-- The part of a run that is the block's own execution. -/
def mainActions : List Turn → List Action
  | [] => []
  | .main action :: turns => action :: mainActions turns
  | _ :: turns => mainActions turns

def StateDB.execute (b : Backend) (s : StateDB) (actions : List Action) : Except Panic StateDB :=
  actions.foldlM (Action.apply b) s

section Blocks
variable {b : Backend} {s s' r : StateDB} {y y' : Sharing} {turn : Turn} {turns : List Turn}

lemma Sim.action (hsound : b.Sound) (h : Sim b s r) {write : Bool} {action : Action}
    (hkeep : ∀ addr, action.Creates b s addr → Barren b addr) (hs : action.apply (b.sharing write) s = .ok s') :
    ∃ r', action.apply b.plain r = .ok r' ∧ Sim b s' r' := by
  cases action with
  | op op => exact h.apply hsound hkeep hs
  | prepare thash ti =>
    cases hs
    exact ⟨_, rfl, h.prepare thash ti⟩
  | finalise deleteEmptyObjects =>
    cases hs
    exact ⟨_, rfl, h.finalise deleteEmptyObjects⟩

/-- All states are right about the pool, and `main` runs beside `r`. -/
structure Sharing.Inv (b : Backend) (y : Sharing) (r : StateDB) : Prop where
  main : Sim b { y.main with shared := y.pool } r
  prefetchers : ∀ i p, y.prefetchers i = some p → ∃ q, Sim b { p with shared := y.pool } q

lemma getStateObject_shared (s : StateDB) (shared : Address → Storage) (addr : Address) :
    (StateDB.getStateObject b { s with shared := shared } addr).1 = (s.getStateObject b addr).1 := by
  rw [(getStateObject_eq _ addr).1, (getStateObject_eq s addr).1]
  rfl

lemma Action.Creates.shared {action : Action} {shared : Address → Storage} {addr : Address}
    (h : action.Creates b { s with shared := shared } addr) : action.Creates b s addr := by
  cases action with
  | op op =>
    cases op with
    | createAccount addr' => exact h
    | addBalance | subBalance | setBalance | setNonce | setCode | setState =>
      exact ⟨h.1, getStateObject_shared s shared addr ▸ h.2⟩
    | _ => exact h.elim
  | _ => exact h.elim

lemma Sharing.Inv.step (hsound : b.Sound) (h : y.Inv b r) (hkeep : ∀ addr, y.Creates b addr turn → Barren b addr)
    (hy : y.step b turn = .ok y') : ∃ r', r.execute b.plain (mainActions [turn]) = .ok r' ∧ y'.Inv b r' := by
  cases turn with
  | main action =>
    rw [Sharing.step] at hy
    cases hs : action.apply (b.sharing false) { y.main with shared := y.pool } with
    | error e => rw [hs] at hy; cases hy
    | ok s =>
      rw [hs] at hy
      cases hy
      obtain ⟨r', hr', hsim⟩ := h.main.action hsound (fun addr hcreates => hkeep addr hcreates.shared) hs
      refine ⟨r', ?_, hsim, fun i p hp => ?_⟩
      · rw [mainActions, mainActions, StateDB.execute, List.foldlM_cons, hr']
        rfl
      · obtain ⟨q, hq⟩ := h.prefetchers i p hp
        exact ⟨q, hq.setPool hsim.pool⟩
  | prefetch i action =>
    rw [Sharing.step] at hy
    cases hp : y.prefetchers i with
    | none =>
      rw [hp] at hy
      cases hy
      exact ⟨r, rfl, h⟩
    | some p =>
      rw [hp] at hy
      dsimp only at hy
      cases hs : action.apply (b.sharing true) { p with shared := y.pool } with
      | error e => rw [hs] at hy; cases hy
      | ok s =>
        rw [hs] at hy
        cases hy
        obtain ⟨q, hq⟩ := h.prefetchers i p hp
        obtain ⟨q', -, hsim⟩ := hq.action hsound (fun addr hcreates => hkeep addr ⟨p, hp, hcreates.shared⟩) hs
        refine ⟨r, rfl, h.main.setPool hsim.pool, fun j p' hp' => ?_⟩
        dsimp only at hp'
        by_cases hj : j = i
        · subst hj
          rw [Function.update_self] at hp'
          cases hp'
          exact ⟨q', hsim⟩
        · rw [Function.update_of_ne hj] at hp'
          obtain ⟨q, hq⟩ := h.prefetchers j p' hp'
          exact ⟨q, hq.setPool hsim.pool⟩
  | copy i =>
    cases hy
    refine ⟨r, rfl, h.main, fun j p hp => ?_⟩
    dsimp only at hp
    by_cases hj : j = i
    · subst hj
      rw [Function.update_self] at hp
      cases hp
      exact ⟨_, h.main.copy⟩
    · rw [Function.update_of_ne hj] at hp
      exact h.prefetchers j p hp

lemma mainActions_cons (turn : Turn) (turns : List Turn) :
    mainActions (turn :: turns) = mainActions [turn] ++ mainActions turns := by
  cases turn <;> rfl

lemma Sharing.Inv.run (hsound : b.Sound) (h : y.Inv b r) (hkeep : y.Permits b turns) (hy : y.run b turns = .ok y') :
    ∃ r', r.execute b.plain (mainActions turns) = .ok r' ∧ y'.Inv b r' := by
  induction turns generalizing y r with
  | nil =>
    cases hy
    exact ⟨r, rfl, h⟩
  | cons turn turns ih =>
    rw [Sharing.run, List.foldlM_cons] at hy
    cases hstep : y.step b turn with
    | error e => rw [hstep] at hy; cases hy
    | ok u =>
      rw [hstep] at hy
      obtain ⟨v, hv, hinv⟩ := h.step hsound hkeep.1 hstep
      obtain ⟨r', hr', hinv'⟩ := ih hinv (hkeep.2 u hstep) hy
      refine ⟨r', ?_, hinv'⟩
      rw [mainActions_cons, StateDB.execute, List.foldlM_append]
      rw [StateDB.execute] at hv
      rw [hv]
      exact hr'

/-- A state that was opened and not used. -/
structure Fresh (s : StateDB) : Prop where
  stateObjects : ∀ addr, s.stateObjects addr = none
  snapDestructs : ∀ addr, s.snapDestructs addr = false
  entries : s.journal.entries = []

lemma Fresh.inv (h : Fresh s) : (Sharing.start s).Inv b s where
  main :=
    { objects := fun addr => by
        dsimp only [Sharing.start]
        rw [h.stateObjects]
        exact .none
      pool := nofun
      flagged := fun addr hflag => by
        rw [show (Sharing.start s).main.snapDestructs addr = false from h.snapDestructs addr] at hflag
        cases hflag
      journal := by
        dsimp only [Sharing.start]
        rw [h.entries]
        trivial
      rest := rfl }
  prefetchers := nofun

/-- An account that a prefetcher has read and the block destroys and creates again: the new
object finds the old value in the pool before it asks whether the account was destroyed. -/
theorem pool_serves_destroyed :
    (((Sharing.start opened).run (poolBackend (some poolSnap))
        [.copy 0, .prefetch 0 (.op (.getState 7 0)), .main (.op (.suicide 7)), .main (.finalise true),
          .main (.op (.createAccount 7))]).toOption.map fun y => y.getState (poolBackend (some poolSnap)) 7 0) = some 5 ∧
      ((opened.execute (poolBackend (some poolSnap)).plain
        [.op (.suicide 7), .finalise true, .op (.createAccount 7)]).toOption.map fun r =>
          (r.getState (poolBackend (some poolSnap)).plain 7 0).1) = some 0 := by
  decide +kernel

/-- Whatever the prefetchers do in between, the block's execution reads what it reads without
the pool, as long as no account is created where the root has one with storage. -/
theorem pool_invisible (hsound : b.Sound) (hfresh : Fresh s) (hkeep : (Sharing.start s).Permits b turns)
    (hy : (Sharing.start s).run b turns = .ok y) :
    ∃ r, s.execute b.plain (mainActions turns) = .ok r ∧ ∀ addr key,
      y.getState b addr key = (r.getState b.plain addr key).1 ∧
        y.getCommittedState b addr key = (r.getCommittedState b.plain addr key).1 := by
  obtain ⟨r, hr, hinv⟩ := hfresh.inv.run hsound hkeep hy
  exact ⟨r, hr, fun addr key => (hinv.main.readSlots false addr key).1⟩

end Blocks

/-- A prefetcher reads the slot of account 7, which the block reads, too, and destroys. Only
account 8, which is not there, is created. -/
theorem pool_invisible_destroyed :
    ∃ y r, (Sharing.start opened).run (poolBackend (some poolSnap))
        [.copy 0, .prefetch 0 (.op (.getState 7 0)), .main (.op (.getState 7 0)), .main (.op (.suicide 7)),
          .main (.finalise true), .main (.op (.createAccount 8))] = .ok y ∧
      opened.execute (poolBackend (some poolSnap)).plain
        [.op (.getState 7 0), .op (.suicide 7), .finalise true, .op (.createAccount 8)] = .ok r ∧
      ∀ addr key, y.getState (poolBackend (some poolSnap)) addr key =
          (r.getState (poolBackend (some poolSnap)).plain addr key).1 ∧
        y.getCommittedState (poolBackend (some poolSnap)) addr key =
          (r.getCommittedState (poolBackend (some poolSnap)).plain addr key).1 := by
  have hsound : (poolBackend (some poolSnap)).Sound := by
    refine ⟨fun addr key => ?_, fun snap hsnap addr hnone key => ?_⟩
    · have hroot : ¬ (Trie.emptyRoot = 1 ∧ key = 0) := fun h => absurd h.1 (by decide)
      show (some (if Trie.emptyRoot = 1 ∧ key = 0 then (5 : Hash) else 0)).getD 0 = 0
      rw [if_neg hroot]
      rfl
    · cases hsnap
      by_cases haddr : addr = 7
      · subst haddr
        cases hnone
      · show (some (if addr = 7 ∧ key = 0 then (5 : Hash) else 0)).getD 0 = 0
        rw [if_neg fun h => haddr h.1]
        rfl
  have hbarren : Barren (poolBackend (some poolSnap)) 8 := fun key => rfl
  have hkeep : (Sharing.start opened).Permits (poolBackend (some poolSnap))
      [.copy 0, .prefetch 0 (.op (.getState 7 0)), .main (.op (.getState 7 0)), .main (.op (.suicide 7)),
        .main (.finalise true), .main (.op (.createAccount 8))] := by
    refine ⟨fun _ h => h.elim, fun _ _ => ⟨fun _ ⟨_, _, h⟩ => h.elim, fun _ _ => ⟨fun _ h => h.elim, fun _ _ =>
      ⟨fun _ h => h.elim, fun _ _ => ⟨fun _ h => h.elim, fun _ _ => ⟨fun addr h => ?_, fun _ _ => trivial⟩⟩⟩⟩⟩⟩
    have haddr : 8 = addr := h
    exact haddr ▸ hbarren
  have hok : ((Sharing.start opened).run (poolBackend (some poolSnap))
      [.copy 0, .prefetch 0 (.op (.getState 7 0)), .main (.op (.getState 7 0)), .main (.op (.suicide 7)),
        .main (.finalise true), .main (.op (.createAccount 8))]).isOk = true := by
    decide +kernel
  cases hy : (Sharing.start opened).run (poolBackend (some poolSnap))
      [.copy 0, .prefetch 0 (.op (.getState 7 0)), .main (.op (.getState 7 0)), .main (.op (.suicide 7)),
        .main (.finalise true), .main (.op (.createAccount 8))] with
  | error e =>
    rw [hy] at hok
    cases hok
  | ok y =>
    obtain ⟨r, hr, hreads⟩ := pool_invisible hsound ⟨fun _ => rfl, fun _ => rfl, rfl⟩ hkeep hy
    exact ⟨y, r, rfl, hr, hreads⟩

end TurboOctopus.State
