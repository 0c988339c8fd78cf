import TurboOctopus.Lib.Runs
import TurboOctopus.Lib.Maps
import TurboOctopus.Types.Header
/-!
# The import queue of the block fetcher

`BlockFetcher.loop` takes queued blocks (headers, in light mode) in the order of
their numbers and starts a goroutine for each one that fits. The goroutine looks
up the parent; if there is none it waits, sends the operation on `requeue` and
only then, deferred, its hash on `done`. The loop handles the first with
`enqueue` and the second with `forgetBlock`.

What the announcement stages let through arrives here as the list of blocks that
a header or body filter enqueues: any list, so every order of announcements,
requests and replies is among the runs.
-/

namespace TurboOctopus.Fetcher

open Lib TurboOctopus.Types List

/-- What the fetcher reads of a header or a block. -/
structure Entry where
  hash : Hash
  number : UInt64
  parentHash : Hash
  deriving DecidableEq

/-- A scheduled import. `light` tells which of the two pointers `header` and `block` is set. -/
structure BlockOrHeaderInject where
  origin : String
  light : Bool
  entry : Entry
  deriving DecidableEq

def BlockOrHeaderInject.hash (op : BlockOrHeaderInject) : Hash := op.entry.hash

def BlockOrHeaderInject.number (op : BlockOrHeaderInject) : UInt64 := op.entry.number

/-- The priority in the queue: the smallest number comes first. -/
def BlockOrHeaderInject.priority (op : BlockOrHeaderInject) : Int64 := -op.number.toInt64

def maxUncleDist : UInt64 := 11
def maxQueueDist : UInt64 := 32
def blockLimit : Int := 64

/-- What the fetcher asks of the local chain. -/
structure Chain where
  height : UInt64
  getHeader : Hash → Bool
  getBlock : Hash → Bool

/-- Is it there? A light fetcher looks for headers, a full one for blocks. -/
def Chain.has (c : Chain) (light : Bool) (hash : Hash) : Bool := if light then c.getHeader hash else c.getBlock hash

/-- The block cache of the fetcher. -/
structure BlockFetcher where
  light : Bool
  queue : List BlockOrHeaderInject
  queues : GoMap String Int
  queued : GoMap Hash BlockOrHeaderInject

namespace BlockFetcher

def count (f : BlockFetcher) (peer : String) : Int := (f.queues.lookup peer).getD 0

/-- Past or too distant, as `int64(number) - int64(height)` has it. -/
def outOfRange (number height : UInt64) : Bool :=
  let dist := number.toInt64 - height.toInt64
  decide (dist < -maxUncleDist.toInt64) || decide (maxQueueDist.toInt64 < dist)

/-- Schedule an import. What is dropped is also forgotten as an announcement,
which the block cache does not show. -/
def enqueue (height : UInt64) (f : BlockFetcher) (op : BlockOrHeaderInject) : BlockFetcher :=
  let count := f.count op.origin + 1
  if blockLimit < count then f
  else if outOfRange op.number height then f
  else if f.queued.lookup op.hash = none then
    { f with
      queues := f.queues.insert op.origin count
      queued := f.queued.insert op.hash op
      queue := op :: f.queue }
  else f

def forgetBlock (f : BlockFetcher) (hash : Hash) : BlockFetcher :=
  match f.queued.lookup hash with
  | none => f
  | some insert =>
    let count := f.count insert.origin - 1
    { f with
      queues := if count = 0 then f.queues.erase insert.origin else f.queues.insert insert.origin count
      queued := f.queued.erase hash }

end BlockFetcher

/-- How far the goroutine of an import is. -/
inductive Stage
  /-- Before the parent is looked up. -/
  | started
  /-- Without a parent: it sleeps, `requeue` is still to be sent. -/
  | parentUnknown
  /-- Without a parent, `requeue` is handled and `done` still to be sent. -/
  | requeued
  /-- With a parent: verifying and inserting. -/
  | importing
  /-- Verified and inserted, or given up: `done` is still to be sent. -/
  | finished
  deriving DecidableEq

structure Import where
  op : BlockOrHeaderInject
  stage : Stage
  deriving DecidableEq

/-- Where the loop is: at its head, taking operations off the queue with the
height it has read, or in the `select`. -/
inductive Phase
  | head
  | taking (height : UInt64)
  | select
  deriving DecidableEq

structure Node where
  fetcher : BlockFetcher
  imports : List Import
  phase : Phase
  chain : Chain

inductive Event
  /-- The loop reads the height of the chain. -/
  | height
  /-- The loop pops the operation at this place, one of the highest priority. -/
  | pop (i : Nat)
  /-- The loop finds the queue empty. -/
  | empty
  | requeue (j : Nat)
  | done (j : Nat)
  | inject (origin : String) (block : Entry)
  /-- A header or body filter, with what it enqueues. The other events of the
  `select` are here with no entry: they do not touch the block cache. -/
  | filter (entries : List (String × Entry))
  /-- The goroutine looks up the parent. -/
  | lookup (j : Nat)
  /-- The goroutine has verified and inserted, or given up, with the chain as it is then. -/
  | finish (j : Nat) (chain : Chain)
  /-- The chain changes by other means. -/
  | chain (chain : Chain)

namespace Node

/-- What the loop does with the operation it has popped from place `i`. -/
def take (s : Node) (height : UInt64) (i : Nat) (op : BlockOrHeaderInject) : Node :=
  if height + 1 < op.number then { s with phase := .select }
  else
    let f := { s.fetcher with queue := s.fetcher.queue.eraseIdx i }
    if op.number + maxUncleDist < height ∨ s.chain.has f.light op.hash then { s with fetcher := f.forgetBlock op.hash }
    else { s with fetcher := f, imports := s.imports ++ [⟨op, .started⟩] }

/-- The goroutine of import `j` goes from one stage to the next. -/
def advance (s : Node) (j : Nat) (i : Import) (stage : Stage) : Node :=
  { s with imports := s.imports.set j { i with stage := stage } }

/-- A message of the `select`, handled by a loop that then starts over. -/
def handled (s : Node) (f : BlockFetcher) : Node := { s with fetcher := f, phase := .head }

def enqueueAll (s : Node) (entries : List (String × Entry)) : BlockFetcher :=
  entries.foldl (fun f e => f.enqueue s.chain.height ⟨e.1, f.light, e.2⟩) s.fetcher

/-- The import `j`, if it is at this stage. -/
def importAt (s : Node) (j : Nat) (stage : Stage) : Option Import :=
  s.imports[j]?.filter fun i => i.stage = stage

def step (s : Node) : Event → Option Node
  | .height => if s.phase = .head then some { s with phase := .taking s.chain.height } else none
  | .pop i =>
    match s.phase, s.fetcher.queue[i]? with
    | .taking height, some op =>
      if s.fetcher.queue.all fun o => o.priority ≤ op.priority then some (s.take height i op) else none
    | _, _ => none
  | .empty =>
    match s.phase with
    | .taking _ => if s.fetcher.queue = [] then some { s with phase := .select } else none
    | _ => none
  | .requeue j =>
    if s.phase = .select then
      (s.importAt j .parentUnknown).map fun i =>
        (s.handled (s.fetcher.enqueue s.chain.height i.op)).advance j i .requeued
    else none
  | .done j =>
    if s.phase = .select then
      match s.imports[j]? with
      | none => none
      | some i =>
        -- the message is deferred: it comes once everything else of the goroutine is over
        if i.stage = .requeued ∨ i.stage = .finished then
          some { s.handled (s.fetcher.forgetBlock i.op.hash) with imports := s.imports.eraseIdx j }
        else none
    else none
  | .inject origin block =>
    if s.phase = .select then
      -- a light fetcher drops the block
      some (s.handled (if s.fetcher.light then s.fetcher else s.fetcher.enqueue s.chain.height ⟨origin, false, block⟩))
    else none
  | .filter entries => if s.phase = .select then some (s.handled (s.enqueueAll entries)) else none
  | .lookup j =>
    (s.importAt j .started).map fun i =>
      s.advance j i (if s.chain.has s.fetcher.light i.op.entry.parentHash then .importing else .parentUnknown)
  | .finish j chain => (s.importAt j .importing).map fun i => { s.advance j i .finished with chain := chain }
  | .chain chain => some { s with chain := chain }

end Node

/-- A fetcher that has just been started. -/
def start (light : Bool) (chain : Chain) : Node := ⟨⟨light, [], ∅, ∅⟩, [], .head, chain⟩

abbrev Runs : Node → List Event → Node → Prop := Run fun s e t => s.step e = some t

/-! ## What is registered is in the queue or in flight -/

/-- A hash is registered exactly when it has one place, in the queue or among
the hashes of the running imports, and then it has only that one. -/
def Counted (f : BlockFetcher) (running : List Hash) : Prop :=
  ∀ h, (f.queue.map (·.hash)).count h + running.count h = if (f.queued.lookup h).isSome then 1 else 0

section Cache

variable {f : BlockFetcher} {running : List Hash} {op : BlockOrHeaderInject} {height : UInt64}

variable {h : Hash}

lemma Counted.queued_of_mem (hc : Counted f running) (hmem : h ∈ running) : (f.queued.lookup h).isSome := by
  have hone := hc h
  have hpos : 0 < running.count h := count_pos_iff.2 hmem
  split at hone
  · assumption
  · omega

/-- A hash that is not registered is neither in the queue nor in flight. -/
lemma Counted.nowhere (hc : Counted f running) (hq : f.queued.lookup h = none) :
    (∀ op ∈ f.queue, op.hash ≠ h) ∧ h ∉ running := by
  have hzero := hc h
  simp only [hq, Option.isSome_none, Bool.false_eq_true, if_false, Nat.add_eq_zero_iff, count_eq_zero] at hzero
  exact ⟨fun op hop he => hzero.1 (mem_map.2 ⟨op, hop, he⟩), hzero.2⟩

open BlockFetcher

lemma enqueue_registered (hq : (f.queued.lookup op.hash).isSome) : f.enqueue height op = f := by
  unfold enqueue
  have hne : f.queued.lookup op.hash ≠ none := Option.isSome_iff_ne_none.1 hq
  simp [hne]

lemma Counted.enqueue (hc : Counted f running) : Counted (f.enqueue height op) running := by
  unfold BlockFetcher.enqueue
  dsimp only
  split
  · exact hc
  split
  · exact hc
  split
  next hnew =>
    intro h
    have hcount := hc h
    by_cases he : h = op.hash
    · subst he
      simp only [hnew, Option.isSome_none, Bool.false_eq_true, if_false] at hcount
      simp [Finmap.lookup_insert]
      omega
    · simpa [Finmap.lookup_insert_of_ne _ he, count_cons_of_ne (Ne.symm he)] using hcount
  · exact hc

@[simp] lemma forgetBlock_queue (hash : Hash) : (f.forgetBlock hash).queue = f.queue := by
  unfold forgetBlock
  split <;> rfl

lemma lookup_forgetBlock (hash h : Hash) :
    (f.forgetBlock hash).queued.lookup h = if h = hash then none else f.queued.lookup h := by
  unfold forgetBlock
  by_cases he : h = hash
  · subst he
    split
    · simpa
    · simp [Finmap.lookup_erase]
  · split
    · simp [he]
    · simp [he, Finmap.lookup_erase_ne he]

/-- One place of a hash has been given up: `forgetBlock` makes the registration follow. -/
lemma Counted.forgetBlock {hash : Hash}
    (hc : ∀ h, (f.queue.map (·.hash)).count h + running.count h + (if h = hash then 1 else 0) =
      if (f.queued.lookup h).isSome then 1 else 0) : Counted (f.forgetBlock hash) running := by
  intro h
  have hcount := hc h
  rw [forgetBlock_queue, lookup_forgetBlock]
  by_cases he : h = hash
  · simp only [he, if_true] at hcount ⊢
    split at hcount <;> simp <;> omega
  · simpa [he] using hcount

lemma enqueue_not_queued (hne : op.hash ≠ h) (hq : f.queued.lookup h = none) :
    (f.enqueue height op).queued.lookup h = none := by
  unfold enqueue
  dsimp only
  split
  · exact hq
  split
  · exact hq
  split
  · simpa [Finmap.lookup_insert_of_ne _ hne.symm] using hq
  · exact hq

end Cache

lemma count_eraseIdx {α : Type} (g : α → Hash) {l : List α} {i : Nat} {a : α} (hi : l[i]? = some a) (h : Hash) :
    ((l.eraseIdx i).map g).count h + (if h = g a then 1 else 0) = (l.map g).count h := by
  obtain ⟨hlt, rfl⟩ := List.getElem?_eq_some_iff.1 hi
  have hperm := ((getElem_cons_eraseIdx_perm hlt).map g).count_eq h
  simp only [map_cons, count_cons, beq_iff_eq] at hperm
  simp only [eq_comm (a := h)]
  exact hperm

namespace Node

variable {s t : Node} {j : Nat} {i : Import}

/-- The hashes of the imports in flight. -/
def running (s : Node) : List Hash := s.imports.map (·.op.hash)

lemma importAt_eq_some {stage : Stage} : s.importAt j stage = some i ↔ s.imports[j]? = some i ∧ i.stage = stage := by
  simp [importAt, Option.filter_eq_some_iff]

lemma mem_running (hi : s.imports[j]? = some i) : i.op.hash ∈ s.running :=
  mem_map.2 ⟨i, mem_of_getElem? hi, rfl⟩

lemma advance_running (hi : s.imports[j]? = some i) (stage : Stage) : (s.advance j i stage).running = s.running := by
  obtain ⟨hlt, rfl⟩ := List.getElem?_eq_some_iff.1 hi
  have hset : (s.imports.map (·.op.hash)).set j (s.imports[j]).op.hash = s.imports.map (·.op.hash) := by
    rw [← getElem_map (fun i : Import => i.op.hash) (h := by simpa using hlt)]
    exact set_getElem_self _
  simpa [running, advance, map_set] using hset

/-- What an event does to the block cache and to the imports in flight. -/
inductive Changes (s : Node) : Event → BlockFetcher → List Hash → Prop
  | same (e : Event) : Changes s e s.fetcher s.running
  | started {k : Nat} {op : BlockOrHeaderInject} (hop : s.fetcher.queue[k]? = some op) :
    Changes s (.pop k) { s.fetcher with queue := s.fetcher.queue.eraseIdx k } (s.running ++ [op.hash])
  | dropped {k : Nat} {op : BlockOrHeaderInject} (hop : s.fetcher.queue[k]? = some op) :
    Changes s (.pop k) ({ s.fetcher with queue := s.fetcher.queue.eraseIdx k }.forgetBlock op.hash) s.running
  | requeued {j : Nat} {i : Import} (hi : s.imports[j]? = some i) :
    Changes s (.requeue j) (s.fetcher.enqueue s.chain.height i.op) s.running
  | done {j : Nat} {i : Import} (hi : s.imports[j]? = some i) :
    Changes s (.done j) (s.fetcher.forgetBlock i.op.hash) ((s.imports.eraseIdx j).map (·.op.hash))
  | injected (origin : String) (block : Entry) :
    Changes s (.inject origin block) (s.fetcher.enqueue s.chain.height ⟨origin, false, block⟩) s.running
  | filtered (entries : List (String × Entry)) : Changes s (.filter entries) (s.enqueueAll entries) s.running

variable {e : Event}

lemma changes (h : s.step e = some t) : s.Changes e t.fetcher t.running := by
  cases e with
  | height =>
    simp only [step, Option.ite_none_right_eq_some, Option.some.injEq] at h
    obtain ⟨-, rfl⟩ := h
    exact .same _
  | pop k =>
    simp only [step] at h
    split at h
    next height op _ hop =>
      simp only [Option.ite_none_right_eq_some, Option.some.injEq] at h
      obtain ⟨-, rfl⟩ := h
      unfold take
      split
      · exact .same _
      dsimp only
      split
      · exact .dropped hop
      · simpa [running] using Changes.started hop
    · cases h
  | empty =>
    simp only [step] at h
    split at h
    · simp only [Option.ite_none_right_eq_some, Option.some.injEq] at h
      obtain ⟨-, rfl⟩ := h
      exact .same _
    · cases h
  | requeue j =>
    simp only [step, Option.ite_none_right_eq_some, Option.map_eq_some_iff, importAt_eq_some] at h
    obtain ⟨-, i, ⟨hi, -⟩, rfl⟩ := h
    rw [advance_running (by exact hi)]
    exact .requeued hi
  | done j =>
    simp only [step, Option.ite_none_right_eq_some] at h
    obtain ⟨-, h⟩ := h
    split at h
    · cases h
    next i hi =>
      simp only [Option.ite_none_right_eq_some, Option.some.injEq] at h
      obtain ⟨-, rfl⟩ := h
      exact .done hi
  | inject origin block =>
    simp only [step, Option.ite_none_right_eq_some, Option.some.injEq] at h
    obtain ⟨-, rfl⟩ := h
    unfold handled
    split
    · exact .same _
    · exact .injected origin block
  | filter entries =>
    simp only [step, Option.ite_none_right_eq_some, Option.some.injEq] at h
    obtain ⟨-, rfl⟩ := h
    exact .filtered entries
  | lookup j =>
    simp only [step, Option.map_eq_some_iff, importAt_eq_some] at h
    obtain ⟨i, ⟨hi, -⟩, rfl⟩ := h
    rw [advance_running hi]
    exact .same _
  | finish j chain =>
    simp only [step, Option.map_eq_some_iff, importAt_eq_some] at h
    obtain ⟨i, ⟨hi, -⟩, rfl⟩ := h
    change Changes s _ s.fetcher (s.advance j i .finished).running
    rw [advance_running hi]
    exact .same _
  | chain chain =>
    simp only [step, Option.some.injEq] at h
    subst h
    exact .same _

lemma enqueueAll_counted (hc : Counted s.fetcher s.running) (entries : List (String × Entry)) :
    Counted (s.enqueueAll entries) s.running := by
  unfold enqueueAll
  generalize s.fetcher = f at hc
  induction entries generalizing f with
  | nil => exact hc
  | cons e entries ih => exact ih _ hc.enqueue

lemma enqueueAll_not_queued {entries : List (String × Entry)} (hne : ∀ e ∈ entries, e.2.hash ≠ h)
    (hq : s.fetcher.queued.lookup h = none) : (s.enqueueAll entries).queued.lookup h = none := by
  unfold enqueueAll
  generalize s.fetcher = f at hq
  induction entries generalizing f with
  | nil => exact hq
  | cons e entries ih =>
    rw [forall_mem_cons] at hne
    exact ih hne.2 _ (enqueue_not_queued hne.1 hq)

/-- Every event keeps the registrations in step with the places. -/
lemma Changes.counted {f : BlockFetcher} {running : List Hash} (h : s.Changes e f running)
    (hc : Counted s.fetcher s.running) : Counted f running := by
  cases h with
  | same => exact hc
  | started hop =>
    intro h
    have hcount := hc h
    have herase := count_eraseIdx (·.hash) hop h
    simp only [count_append, count_singleton, beq_iff_eq, eq_comm (a := h)] at herase ⊢
    omega
  | dropped hop =>
    refine Counted.forgetBlock fun h => ?_
    have hcount := hc h
    have herase := count_eraseIdx (·.hash) hop h
    dsimp only
    omega
  | requeued hi => exact hc.enqueue
  | done hi =>
    refine Counted.forgetBlock fun h => ?_
    have hcount := hc h
    have herase := count_eraseIdx (·.op.hash) hi h
    unfold running at hcount
    omega
  | injected => exact hc.enqueue
  | filtered entries => exact enqueueAll_counted hc entries

end Node

/-- Does the event bring the block with this hash to the fetcher? -/
def Event.Delivers (h : Hash) : Event → Prop
  | .inject _ block => block.hash = h
  | .filter entries => ∃ e ∈ entries, e.2.hash = h
  | _ => False

variable {es : List Event} {h : Hash} {s t : Node}

/-- A hash that is not registered becomes so only by a delivery: a requeued
operation is still in flight, so its hash is registered and not this one. -/
lemma Node.Changes.not_queued {f : BlockFetcher} {running : List Hash}
    (h : s.Changes e f running) (hc : Counted s.fetcher s.running) {hash : Hash} (hd : ¬ e.Delivers hash)
    (hq : s.fetcher.queued.lookup hash = none) : f.queued.lookup hash = none := by
  cases h with
  | same => exact hq
  | started hop => exact hq
  | dropped hop =>
    rw [lookup_forgetBlock]
    simp [hq]
  | requeued hi => rwa [enqueue_registered (hc.queued_of_mem (mem_running hi))]
  | done hi =>
    rw [lookup_forgetBlock]
    simp [hq]
  | injected origin block => exact enqueue_not_queued hd hq
  | filtered entries =>
    refine enqueueAll_not_queued (fun e he heq => ?_) hq
    exact hd ⟨e, he, heq⟩

lemma counted_run {light : Bool} {chain : Chain} (h : Runs (start light chain) es s) :
    Counted s.fetcher s.running := by
  refine Run.inv (fun s => Counted s.fetcher s.running) h ?_ fun s e t hc hstep => (Node.changes hstep).counted hc
  intro h
  simp [start, Node.running]

/-- Neither queued nor registered nor being imported. -/
def Node.Lost (s : Node) (h : Hash) : Prop :=
  (∀ op ∈ s.fetcher.queue, op.hash ≠ h) ∧ s.fetcher.queued.lookup h = none ∧ ∀ i ∈ s.imports, i.op.hash ≠ h

lemma Node.lost_of_not_queued (hc : Counted s.fetcher s.running)
    (hq : s.fetcher.queued.lookup h = none) : s.Lost h := by
  obtain ⟨hqueue, hrunning⟩ := hc.nowhere hq
  exact ⟨hqueue, hq, fun i hi he => hrunning (mem_map.2 ⟨i, hi, he⟩)⟩

lemma Node.done_not_queued {j : Nat} {i : Import} (hi : s.imports[j]? = some i)
    (h : s.step (.done j) = some t) : t.fetcher.queued.lookup i.op.hash = none := by
  simp only [Node.step, Option.ite_none_right_eq_some, hi, Option.some.injEq] at h
  obtain ⟨-, -, rfl⟩ := h
  exact (lookup_forgetBlock _ _).trans (if_pos rfl)

/-- What is lost stays so until the block is delivered again. -/
lemma lost_run (hc : Counted s.fetcher s.running) (hrun : Runs s es t)
    (hd : ∀ e ∈ es, ¬ e.Delivers h) (hq : s.fetcher.queued.lookup h = none) : t.Lost h := by
  induction hrun with
  | nil s => exact Node.lost_of_not_queued hc hq
  | cons hstep _ ih =>
    rw [forall_mem_cons] at hd
    have hchange := Node.changes hstep
    exact ih (hchange.counted hc) hd.2 (hchange.not_queued hc hd.1 hq)

/-- In every run, whatever the heights and the counts of the peers are: the
`requeue` message of an import without a parent does nothing to the block cache,
because the hash is still registered, and the `done` message then takes the
registration away. After it the block is neither queued nor registered, and it is
not imported before it is delivered again, whether the parent arrives or not. -/
theorem requeued_is_forgotten {light : Bool} {chain : Chain} {es : List Event} {s : Node} {j : Nat} {i : Import}
    (hrun : Runs (start light chain) es s) (hi : s.imports[j]? = some i) :
    (∀ t, i.stage = .parentUnknown → s.step (.requeue j) = some t → t.fetcher = s.fetcher ∧
      ∀ op ∈ t.fetcher.queue, op.hash ≠ i.op.hash) ∧
    (∀ t, i.stage = .requeued → s.step (.done j) = some t → t.Lost i.op.hash ∧
      ∀ fs u, Runs t fs u → (∀ e ∈ fs, ¬ e.Delivers i.op.hash) → u.Lost i.op.hash) := by
  have hc := counted_run hrun
  have hreg := hc.queued_of_mem (Node.mem_running hi)
  constructor
  · intro t _ hstep
    simp only [Node.step, Option.ite_none_right_eq_some, Option.map_eq_some_iff, Node.importAt_eq_some, hi] at hstep
    obtain ⟨-, i', ⟨hsame, -⟩, rfl⟩ := hstep
    obtain rfl : i = i' := Option.some.inj hsame
    have hkept : s.fetcher.enqueue s.chain.height i.op = s.fetcher := enqueue_registered hreg
    refine ⟨hkept, fun op hop he => ?_⟩
    -- its only place is among the imports in flight
    have hone := hc i.op.hash
    have hflight : 0 < s.running.count i.op.hash := count_pos_iff.2 (Node.mem_running hi)
    have hqueue : 0 < (s.fetcher.queue.map (·.hash)).count i.op.hash := by
      rw [count_pos_iff, mem_map]
      rw [hkept] at hop
      exact ⟨op, hop, he⟩
    rw [if_pos hreg] at hone
    omega
  · intro t _ hstep
    have hcount := (Node.changes hstep).counted hc
    have hq := Node.done_not_queued hi hstep
    exact ⟨Node.lost_of_not_queued hcount hq, fun fs u hfs hd => lost_run hcount hfs hd hq⟩

/-- The retry as it is meant: after both messages the block is queued and
registered again if it is in range and its peer below the limit. -/
def Retried : Prop :=
  ∀ light chain es s j i t, Runs (start light chain) es s → s.imports[j]? = some i → i.stage = .requeued →
    s.step (.done j) = some t → BlockFetcher.outOfRange i.op.number t.chain.height = false →
    t.fetcher.count i.op.origin < blockLimit →
    (∃ op ∈ t.fetcher.queue, op.hash = i.op.hash) ∧ (t.fetcher.queued.lookup i.op.hash).isSome

/-- At height 5, a block 6 on a block 5 that this node does not have. -/
def late : BlockOrHeaderInject := ⟨"peer", false, ⟨2, 6, 1⟩⟩

def lateRun : List Event :=
  [.height, .empty, .inject "peer" late.entry, .height, .pop 0, .empty, .lookup 0, .requeue 0, .height, .empty]

def lateChain : Chain := ⟨5, fun _ => false, fun _ => false⟩

lemma late_run : ∃ s t, Runs (start false lateChain) lateRun s ∧ s.imports[0]? = some ⟨late, .requeued⟩ ∧
    s.step (.done 0) = some t ∧ t.chain.height = 5 ∧ t.fetcher.count "peer" = 0 := by
  let test (s : Node) : Bool := s.imports[0]? = some ⟨late, .requeued⟩ &&
    (s.step (.done 0)).any fun t => t.chain.height = 5 && t.fetcher.count "peer" = 0
  have hfound : ∃ s, Runs (start false lateChain) lateRun s ∧ test s = true := Run.of_foldlM (by decide +kernel)
  obtain ⟨s, hrun, hs⟩ := hfound
  simp only [test, Bool.and_eq_true, decide_eq_true_eq, Option.any_eq_true] at hs
  obtain ⟨hi, t, ht, hheight, hcount⟩ := hs
  exact ⟨s, t, hrun, hi, ht, hheight, hcount⟩

theorem requeued_is_forgotten_late : ∃ s t, Runs (start false lateChain) lateRun s ∧
    s.imports[0]? = some ⟨late, .requeued⟩ ∧ s.step (.done 0) = some t ∧ t.Lost 2 := by
  obtain ⟨s, t, hrun, hi, ht, -⟩ := late_run
  exact ⟨s, t, hrun, hi, ht, ((requeued_is_forgotten hrun hi).2 t rfl ht).1⟩

theorem not_retried : ¬ Retried := by
  intro hclaim
  obtain ⟨s, t, hrun, hi, ht, hheight, hcount⟩ := late_run
  have hrange : BlockFetcher.outOfRange late.number t.chain.height = false := by rw [hheight]; decide
  have hlimit : t.fetcher.count late.origin < blockLimit := by
    change t.fetcher.count "peer" < 64
    omega
  have hreg := (hclaim _ _ _ _ _ _ _ hrun hi rfl ht hrange hlimit).2
  simp [Node.done_not_queued hi ht] at hreg

end TurboOctopus.Fetcher
