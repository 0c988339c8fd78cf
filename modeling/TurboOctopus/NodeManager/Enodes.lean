import TurboOctopus.Lib.Runs
import TurboOctopus.Lib.Logs
import TurboOctopus.Lib.Maps
import Mathlib.Data.Fintype.Basic
/-!
# The pool and the history of endpoints

Crawlers add the endpoints they hear of to `enodePool`, the dial loop moves one at a
time from there to `enodeHistory` and dials it, and `HistoryLoop` takes it out of
the history after an hour. Every operation on one of the two maps is a step. An
endpoint should be in one map at most and be handed out once until it has left the
history, but the move is two operations and an adder looks at the maps one after the
other, so it can pass between them (`added_while_moved`). What is needed is that no
add of the moving endpoint overlaps the move (`enodes_apart_and_handed_once`).
-/
namespace TurboOctopus.NodeManager

open Lib Finmap

/-- The key of both maps: the text `ip:port`. -/
structure Endpoint where
  ip : String
  port : Nat
deriving DecidableEq

structure NodeItem where
  bootIP : String
  bootPort : Nat
  bootNodeID : String
  addTime : Int
deriving DecidableEq

/-- How far a crawler is with one node of a neighbors packet. -/
inductive AddAt
  | idle
  /-- Before `existEnodeIpItem`. -/
  | exist (key : Endpoint) (enode : String)
  /-- Before the three operations of `addEnodeToCache`. -/
  | history (key : Endpoint) (enode : String)
  | pool (key : Endpoint) (enode : String)
  | set (key : Endpoint) (enode : String)
deriving DecidableEq

/-- The endpoint of an add that is about to look for it in the history. -/
def AddAt.looking : AddAt → Option Endpoint
  | .history key _ => some key
  | .idle | .exist _ _ | .pool _ _ | .set _ _ => none

/-- The endpoint of an add that did not find it in the history. -/
def AddAt.unseen : AddAt → Option Endpoint
  | .pool key _ | .set key _ => some key
  | .idle | .exist _ _ | .history _ _ => none

/-- How far the call of `getEnodeFromCacheForDail` is that holds `enodeReadLock`. -/
inductive DialAt
  | free
  | counted (targetIndex : Nat)
  | chose (key : Endpoint) (item : NodeItem)
  | removed (key : Endpoint) (item : NodeItem)
deriving DecidableEq

/-- The endpoint that is about to leave the pool. -/
def DialAt.leaving : DialAt → Option Endpoint
  | .chose key _ => some key
  | .free | .counted _ | .removed _ _ => none

/-- The endpoint that is in neither map because it is being moved. -/
def DialAt.moving : DialAt → Option Endpoint
  | .removed key _ => some key
  | .free | .counted _ | .chose _ _ => none

/-- How far `HistoryLoop` is: `items` are those of the snapshot still to be looked at. -/
inductive SweepAt
  | sleeping
  | sweeping (nowTime : Int) (items : List (Endpoint × Int))
deriving DecidableEq

inductive EnodeEvent
  | handed (key : Endpoint)
  | expired (key : Endpoint)
deriving DecidableEq

/-- The two maps and where each goroutine is; `log` is not in the source. -/
structure Enodes (ι : Type) where
  enodePool : GoMap Endpoint NodeItem
  enodeHistory : GoMap Endpoint Int
  adders : ι → AddAt
  dialer : DialAt
  sweeper : SweepAt
  log : List EnodeEvent

variable {ι : Type} [DecidableEq ι]

def Enodes.start : Enodes ι := ⟨∅, ∅, fun _ => .idle, .free, .sleeping, []⟩

def Enodes.setAdder (s : Enodes ι) (i : ι) (a : AddAt) : Enodes ι :=
  { s with adders := Function.update s.adders i a }

/-- The next operation of crawler `i`: `existEnodeIpItem`, then those of
`addEnodeToCache`. -/
def Enodes.add (s : Enodes ι) (i : ι) (now : Int) : Option (Enodes ι) :=
  match s.adders i with
  | .idle => none
  | .exist key enode => some (s.setAdder i (if key ∈ s.enodePool then .idle else .history key enode))
  | .history key enode => some (s.setAdder i (if key ∈ s.enodeHistory then .idle else .pool key enode))
  | .pool key enode => some (s.setAdder i (if key ∈ s.enodePool then .idle else .set key enode))
  | .set key enode =>
    some ({ s with enodePool := s.enodePool.insert key ⟨key.ip, key.port, enode, now⟩ }.setAdder i .idle)

/-- The next operation of `getEnodeFromCacheForDail`, with the order in which
`IterBuffered` gives out the entries. A call that finds the pool
empty, or whose index the snapshot does not reach, gives an error and changes
nothing. -/
def Enodes.dial (s : Enodes ι) (targetIndex : Nat) (order : List Endpoint) (now : Int) : Option (Enodes ι) :=
  match s.dialer with
  | .free =>
    if s.enodePool.keys.card = 0 then some s
    else if targetIndex < s.enodePool.keys.card then some { s with dialer := .counted targetIndex }
    else none
  | .counted target =>
    if Enumerates order s.enodePool then
      match order[target]? with
      | none => some { s with dialer := .free }
      | some key => (s.enodePool.lookup key).map fun item => { s with dialer := .chose key item }
    else none
  | .chose key item => some { s with enodePool := s.enodePool.erase key, dialer := .removed key item }
  | .removed key _ =>
    some { s with enodeHistory := s.enodeHistory.insert key now, dialer := .free, log := s.log ++ [.handed key] }

/-- The next operation of `HistoryLoop`. -/
def Enodes.sweep (s : Enodes ι) (now : Int) (order : List Endpoint) : Option (Enodes ι) :=
  match s.sweeper with
  | .sleeping =>
    if Enumerates order s.enodeHistory then
      some { s with sweeper := .sweeping now (order.filterMap fun k => (s.enodeHistory.lookup k).map (k, ·)) }
    else none
  | .sweeping _ [] => some { s with sweeper := .sleeping }
  | .sweeping nowTime ((key, itemTime) :: rest) =>
    if nowTime - itemTime > 60 * 60 * 1 ∧ key ∈ s.enodeHistory then
      some { s with enodeHistory := s.enodeHistory.erase key, sweeper := .sweeping nowTime rest,
                    log := s.log ++ [.expired key] }
    -- the entry is young, or it is gone and `Remove` does nothing
    else some { s with sweeper := .sweeping nowTime rest }

inductive EnodeAction (ι : Type)
  /-- Crawler `i` comes to the next node of a neighbors packet. -/
  | neighbor (i : ι) (key : Endpoint) (enode : String)
  | add (i : ι) (now : Int)
  | dial (targetIndex : Nat) (order : List Endpoint) (now : Int)
  | sweep (now : Int) (order : List Endpoint)

def Enodes.step (s : Enodes ι) : EnodeAction ι → Option (Enodes ι)
  | .neighbor i key enode => if s.adders i = .idle then some (s.setAdder i (.exist key enode)) else none
  | .add i now => s.add i now
  | .dial targetIndex order now => s.dial targetIndex order now
  | .sweep now order => s.sweep now order

/-- An add of an endpoint does not overlap its move: no add is past its look at the
history when the endpoint leaves the pool, and none looks while it is in neither map. -/
def Enodes.Orderly (s : Enodes ι) : EnodeAction ι → Prop
  | .dial _ _ _ => ∀ key ∈ s.dialer.leaving, ∀ i, (s.adders i).unseen ≠ some key
  | .add i _ => ∀ key ∈ (s.adders i).looking, s.dialer.moving ≠ some key
  | .neighbor _ _ _ | .sweep _ _ => True

instance [Fintype ι] (s : Enodes ι) : (a : EnodeAction ι) → Decidable (s.Orderly a)
  | .dial _ _ _ => inferInstanceAs (Decidable (∀ key ∈ s.dialer.leaving, ∀ i, (s.adders i).unseen ≠ some key))
  | .add i _ => inferInstanceAs (Decidable (∀ key ∈ (s.adders i).looking, s.dialer.moving ≠ some key))
  | .neighbor _ _ _ | .sweep _ _ => inferInstanceAs (Decidable True)

/-- What holds in every orderly run. -/
structure Enodes.Tidy (s : Enodes ι) : Prop where
  apart : ∀ key ∈ s.enodePool, key ∉ s.enodeHistory
  kept : ∀ key, Pending (· = .handed key) (· = .expired key) s.log → key ∈ s.enodeHistory
  chosen : ∀ key item, s.dialer = .chose key item → key ∈ s.enodePool
  moving : ∀ key, s.dialer.moving = some key → key ∉ s.enodePool ∧ key ∉ s.enodeHistory
  unseen : ∀ i key, (s.adders i).unseen = some key → key ∉ s.enodeHistory ∧ s.dialer.moving ≠ some key
  once : ∀ key, Separated (· = .handed key) (· = .expired key) s.log

omit [DecidableEq ι] in
lemma Enodes.tidy_start : (Enodes.start : Enodes ι).Tidy where
  apart key h := absurd h notMem_empty
  kept key h := absurd h not_pending_nil
  chosen key item h := by cases h
  moving key h := by cases h
  unseen i key h := by cases h
  once key := separated_nil

section Steps
variable {s t : Enodes ι}

/-- An adder may go on to any point at which it has not missed its endpoint. -/
lemma Enodes.Tidy.setAdder (h : s.Tidy) (i : ι) (a : AddAt)
    (ha : ∀ key, a.unseen = some key → key ∉ s.enodeHistory ∧ s.dialer.moving ≠ some key) :
    (s.setAdder i a).Tidy where
  __ := h
  unseen j key hj := by
    by_cases hji : j = i
    · subst hji
      simp only [Enodes.setAdder, Function.update_self] at hj
      exact ha key hj
    · simp only [Enodes.setAdder, Function.update_of_ne hji] at hj
      exact h.unseen j key hj

omit [DecidableEq ι] in
/-- The pool may take in what is not in the history and not being moved. -/
lemma Enodes.Tidy.insertPool (h : s.Tidy) (key : Endpoint) (item : NodeItem)
    (hkey : key ∉ s.enodeHistory ∧ s.dialer.moving ≠ some key) :
    { s with enodePool := s.enodePool.insert key item }.Tidy where
  __ := h
  apart k hk := by
    rcases mem_insert.1 hk with rfl | hk
    · exact hkey.1
    · exact h.apart k hk
  chosen k item' hk := mem_insert.2 (.inr (h.chosen k item' hk))
  moving k hk := by
    obtain ⟨hpool, hhistory⟩ := h.moving k hk
    refine ⟨fun hmem => ?_, hhistory⟩
    rcases mem_insert.1 hmem with rfl | hmem
    · exact hkey.2 hk
    · exact hpool hmem

variable {item : NodeItem} {key : Endpoint} {now : Int} {order : List Endpoint}

namespace Enodes

lemma Tidy.add {i : ι} (h : s.Tidy) (hok : s.Orderly (.add i now)) (hs : s.add i now = some t) : t.Tidy := by
  simp only [Enodes.add, Enodes.Orderly] at hs hok
  split at hs
  · cases hs
  · cases hs
    refine h.setAdder i _ fun key hkey => ?_
    split at hkey <;> cases hkey
  · next key enode hi =>
    cases hs
    refine h.setAdder i _ fun k hk => ?_
    split at hk
    · cases hk
    · -- the look at the history, which did not see the endpoint
      cases hk
      exact ⟨‹_›, hok key (by rw [hi]; rfl)⟩
  · next key enode hi =>
    cases hs
    refine h.setAdder i _ fun k hk => ?_
    split at hk
    · cases hk
    · cases hk
      exact h.unseen i key (by rw [hi]; rfl)
  · next key enode hi =>
    cases hs
    refine (h.insertPool key _ (h.unseen i key (by rw [hi]; rfl))).setAdder i .idle fun k hk => ?_
    cases hk

section
omit [DecidableEq ι]

/-- The dialer may go on to any point at which it moves nothing. -/
lemma Tidy.setDialer (h : s.Tidy) (d : DialAt)
    (hchosen : ∀ key item, d = .chose key item → key ∈ s.enodePool) (hmoving : d.moving = none) : { s with dialer := d }.Tidy where
  __ := h
  chosen := hchosen
  moving key hkey := by simp [hmoving] at hkey
  unseen i key hi := ⟨(h.unseen i key hi).1, by simp [hmoving]⟩

lemma Tidy.remove (h : s.Tidy) (hd : s.dialer = .chose key item)
    (hok : ∀ i, (s.adders i).unseen ≠ some key) :
    { s with enodePool := s.enodePool.erase key, dialer := .removed key item }.Tidy where
  __ := h
  apart k hk := h.apart k (mem_erase.1 hk).2
  chosen k item' hk := by cases hk
  moving k hk := by
    cases hk
    exact ⟨fun hmem => (mem_erase.1 hmem).1 rfl, h.apart key (h.chosen key item hd)⟩
  unseen i k hk := by
    refine ⟨(h.unseen i k hk).1, fun hmove => ?_⟩
    cases hmove
    exact hok i hk

lemma Tidy.hand (now : Int) (h : s.Tidy)
    (hd : s.dialer = .removed key item) :
    ({ s with enodeHistory := s.enodeHistory.insert key now, dialer := .free,
              log := s.log ++ [.handed key] } : Enodes ι).Tidy := by
  have hmove : s.dialer.moving = some key := by rw [hd]; rfl
  have hkey := h.moving key hmove
  constructor
  · intro k hk hmem
    rcases mem_insert.1 hmem with rfl | hmem
    · exact hkey.1 hk
    · exact h.apart k hk hmem
  · intro k hk
    rcases pending_snoc.1 hk with he | ⟨-, hk⟩
    · cases he
      exact mem_insert.2 (.inl rfl)
    · exact mem_insert.2 (.inr (h.kept k hk))
  · intro k item' hk
    cases hk
  · intro k hk
    cases hk
  · intro i k hk
    obtain ⟨hhistory, hne⟩ := h.unseen i k hk
    refine ⟨fun hmem => ?_, by simp [DialAt.moving]⟩
    rcases mem_insert.1 hmem with rfl | hmem
    · exact hne hmove
    · exact hhistory hmem
  · -- it was in neither map, so it had left the history since it was last handed out
    intro k
    refine separated_snoc.2 ⟨h.once k, fun he hpending => ?_⟩
    cases he
    exact hkey.2 (h.kept key hpending)

lemma Tidy.dial {target : Nat} (h : s.Tidy)
    (hok : s.Orderly (.dial target order now)) (hs : s.dial target order now = some t) : t.Tidy := by
  simp only [Enodes.dial, Enodes.Orderly] at hs hok
  split at hs
  · split at hs
    · cases hs
      exact h
    · split at hs
      · cases hs
        exact h.setDialer _ (by simp) rfl
      · cases hs
  · split at hs
    · split at hs
      · cases hs
        exact h.setDialer _ (by simp) rfl
      · obtain ⟨item, hitem, rfl⟩ := Option.map_eq_some_iff.1 hs
        refine h.setDialer _ (fun k i hk => ?_) rfl
        cases hk
        exact mem_iff.2 ⟨item, hitem⟩
    · cases hs
  · next key item hd =>
    cases hs
    exact h.remove hd (hok key (by rw [hd]; rfl))
  · next key item hd =>
    cases hs
    exact h.hand now hd

lemma Tidy.setSweeper (h : s.Tidy) (w : SweepAt) : { s with sweeper := w }.Tidy :=
  { h with }

lemma Tidy.expire (h : s.Tidy) (key : Endpoint) :
    ({ s with enodeHistory := s.enodeHistory.erase key, log := s.log ++ [.expired key] } : Enodes ι).Tidy where
  apart k hk hmem := h.apart k hk (mem_erase.1 hmem).2
  kept k hk := by
    rcases pending_snoc.1 hk with he | ⟨hne, hk⟩
    · cases he
    · exact mem_erase.2 ⟨fun he => hne (he ▸ rfl), h.kept k hk⟩
  chosen := h.chosen
  moving k hk := ⟨(h.moving k hk).1, fun hmem => (h.moving k hk).2 (mem_erase.1 hmem).2⟩
  unseen i k hk := ⟨fun hmem => (h.unseen i k hk).1 (mem_erase.1 hmem).2, (h.unseen i k hk).2⟩
  once k := separated_snoc.2 ⟨h.once k, nofun⟩

lemma Tidy.sweep (h : s.Tidy) (hs : s.sweep now order = some t) : t.Tidy := by
  simp only [Enodes.sweep] at hs
  split at hs
  · split at hs
    · cases hs
      exact h.setSweeper _
    · cases hs
  · cases hs
    exact h.setSweeper _
  · split at hs
    · cases hs
      exact (h.expire _).setSweeper _
    · cases hs
      exact h.setSweeper _

end

lemma Tidy.step {a : EnodeAction ι} (h : s.Tidy) (hs : Guarded Enodes.Orderly Enodes.step s a t) : t.Tidy := by
  obtain ⟨hok, hs⟩ := hs
  cases a with
  | neighbor i key enode =>
    simp only [Enodes.step] at hs
    split at hs
    · cases hs
      exact h.setAdder i _ (by simp [AddAt.unseen])
    · cases hs
  | add i now => exact h.add hok hs
  | dial target order now => exact h.dial hok hs
  | sweep now order => exact h.sweep hs

end Enodes

end Steps

/-- In every run in which no add of an endpoint overlaps its move, no endpoint is in
both maps, and none is handed out twice without leaving the history in between. -/
theorem enodes_apart_and_handed_once {s : Enodes ι} {es : List (EnodeAction ι)}
    (hrun : Run (Guarded Enodes.Orderly Enodes.step) Enodes.start es s) :
    (∀ key, ¬ (key ∈ s.enodePool ∧ key ∈ s.enodeHistory)) ∧
      ∀ key, Separated (· = .handed key) (· = .expired key) s.log := by
  have h : s.Tidy := hrun.inv _ Enodes.tidy_start fun _ _ _ h hs => h.step hs
  exact ⟨fun key ⟨hpool, hhistory⟩ => h.apart key hpool hhistory, h.once⟩

/-- One endpoint, which a crawler adds and the dialer then starts to move. -/
def oneEndpoint : Endpoint := ⟨"10.0.0.1", 30311⟩

/-- The crawler's four operations, and the dialer's three up to the removal. -/
def addThenRemove : List (EnodeAction Unit) :=
  [.neighbor () oneEndpoint "id", .add () 0, .add () 0, .add () 0, .add () 0,
   .dial 0 [] 1, .dial 0 [oneEndpoint] 1, .dial 0 [] 1]

/-- The endpoint is moved while nobody adds it, and expires. -/
theorem moved_alone_stays_apart : ∃ s : Enodes Unit, Run (Guarded Enodes.Orderly Enodes.step) Enodes.start
        (addThenRemove ++ ([.dial 0 [] 1, .sweep 4000 [oneEndpoint], .sweep 4000 []] : List (EnodeAction Unit))) s ∧
      s.log = [.handed oneEndpoint, .expired oneEndpoint] ∧
      ((∀ key, ¬ (key ∈ s.enodePool ∧ key ∈ s.enodeHistory)) ∧
        ∀ key, Separated (· = .handed key) (· = .expired key) s.log) := by
  have hfound : ∃ s : Enodes Unit, Run (Guarded Enodes.Orderly Enodes.step) Enodes.start
      (addThenRemove ++ ([.dial 0 [] 1, .sweep 4000 [oneEndpoint], .sweep 4000 []] : List (EnodeAction Unit))) s ∧
      decide (s.log = [.handed oneEndpoint, .expired oneEndpoint]) = true := Run.of_guarded (by decide +kernel)
  obtain ⟨s, hrun, hlog⟩ := hfound
  exact ⟨s, hrun, of_decide_eq_true hlog, enodes_apart_and_handed_once hrun⟩

/-- The crawler hears of the endpoint again, looks at both maps while it is in
neither, and adds it when it is in the history. -/
def addWhileMoved : List (EnodeAction Unit) :=
  addThenRemove ++ ([.neighbor () oneEndpoint "id", .add () 2, .add () 2, .add () 2, .dial 0 [] 2,
    .add () 2] : List (EnodeAction Unit))

/-- Then it is in both maps, and the dialer hands it out again. -/
theorem added_while_moved : (∃ s : Enodes Unit, Run (fun s a t => s.step a = some t) Enodes.start addWhileMoved s ∧
      oneEndpoint ∈ s.enodePool ∧ oneEndpoint ∈ s.enodeHistory) ∧
    ∃ s : Enodes Unit, Run (fun s a t => s.step a = some t) Enodes.start
        (addWhileMoved ++ ([.dial 0 [] 3, .dial 0 [oneEndpoint] 3, .dial 0 [] 3,
          .dial 0 [] 3] : List (EnodeAction Unit))) s ∧
      ¬ Separated (· = .handed oneEndpoint) (· = .expired oneEndpoint) s.log := by
  constructor
  · have hfound : ∃ s : Enodes Unit, Run (fun s a t => s.step a = some t) Enodes.start addWhileMoved s ∧
        decide (oneEndpoint ∈ s.enodePool ∧ oneEndpoint ∈ s.enodeHistory) = true := Run.of_foldlM (by decide +kernel)
    obtain ⟨s, hrun, hboth⟩ := hfound
    exact ⟨s, hrun, of_decide_eq_true hboth⟩
  · have hfound : ∃ s : Enodes Unit, Run (fun s a t => s.step a = some t) Enodes.start
        (addWhileMoved ++ ([.dial 0 [] 3, .dial 0 [oneEndpoint] 3, .dial 0 [] 3,
          .dial 0 [] 3] : List (EnodeAction Unit))) s ∧
        decide (s.log = [.handed oneEndpoint, .handed oneEndpoint]) = true := Run.of_foldlM (by decide +kernel)
    obtain ⟨s, hrun, hlog⟩ := hfound
    refine ⟨s, hrun, fun hsep => ?_⟩
    obtain ⟨z, hz, -⟩ := hsep [] _ [] _ [] (by simpa using hlog) rfl rfl
    simp at hz

end TurboOctopus.NodeManager
