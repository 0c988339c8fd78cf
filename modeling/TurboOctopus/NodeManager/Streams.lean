import TurboOctopus.Types.Header
import TurboOctopus.Lib.Runs
import TurboOctopus.Lib.Maps
/-!
# Streams and the messages that are sent to them

Clients register a stream under a name (`HandStartStream`), and every transaction and
block that is not known yet goes to all of them (`TransactionProcess`,
`BlockProcess`). Calls run side by side; every operation on a shared map, a cache or a
channel is a step of its own. The part of `BlockProcess` before the cache is in
`Proximity`.
-/
namespace TurboOctopus.NodeManager

open Lib TurboOctopus.Types Function

/-! ## Known hashes -/

structure KnownCache where
  hashes : Finset Hash
  max : Nat

/-- The loop that pops elements until no more than `bound` are left. Which ones a
`Pop` takes is not fixed: they are the elements of the list. -/
def popUntil (bound : Nat) : Finset Hash → List Hash → Option (Finset Hash)
  | hashes, [] => if hashes.card ≤ bound then some hashes else none
  | hashes, p :: popped =>
    if bound < hashes.card ∧ p ∈ hashes then popUntil bound (hashes.erase p) popped else none

def KnownCache.add (k : KnownCache) (popped : List Hash) (hash : Hash) : Option KnownCache :=
  (popUntil (k.max - 1) k.hashes popped).map fun hashes => { k with hashes := insert hash hashes }

variable {popped : List Hash}

lemma mem_popUntil {bound : Nat} {hashes left : Finset Hash}
    (h : popUntil bound hashes popped = some left) (x : Hash) : x ∈ left ↔ x ∈ hashes ∧ x ∉ popped := by
  induction popped generalizing hashes with
  | nil =>
    simp only [popUntil] at h
    split at h
    · cases h
      simp
    · cases h
  | cons p popped ih =>
    simp only [popUntil] at h
    split at h
    · rw [ih h, Finset.mem_erase, List.mem_cons]
      tauto
    · cases h

lemma KnownCache.mem_add {k k' : KnownCache} {hash x : Hash}
    (h : k.add popped hash = some k') : x ∈ k'.hashes ↔ x = hash ∨ (x ∈ k.hashes ∧ x ∉ popped) := by
  obtain ⟨left, hleft, rfl⟩ := Option.map_eq_some_iff.1 h
  rw [Finset.mem_insert, mem_popUntil hleft]

/-! ## The state -/

/-- `StreamType` 1 and 2. -/
inductive StreamType
  | block
  | tx
deriving DecidableEq

/-- A message, by the hash of the transaction or block that is encoded in it. -/
structure Msg where
  streamType : StreamType
  hash : Hash
deriving DecidableEq

/-- What is stored under a name; a channel is named by the call that made it. -/
structure ServerPeer (ι : Type) where
  name : String
  streamChan : ι
deriving DecidableEq

/-- How far a call of `HandStartStream` is. -/
inductive StreamAt
  | idle
  /-- Before `Has`. -/
  | has (name : String)
  /-- Before `Set`. -/
  | set (name : String)
  | serving (name : String)
  /-- Out of the loop, before the deferred `Remove`. -/
  | leaving (name : String)
  | returned
deriving DecidableEq

/-- How far a call of `TransactionProcess` or `BlockProcess` is: before the operation
that gives the name. -/
inductive CallAt (ι : Type)
  | idle
  | contains (msg : Msg)
  | add (msg : Msg)
  | marshal (msg : Msg)
  | iterate (msg : Msg)
  | sending (msg : Msg) (targets : List (ServerPeer ι))
  | returned
deriving DecidableEq

inductive HubEvent (ι β : Type)
  /-- Call `j` did not find the hash in the cache. -/
  | admitted (j : β) (msg : Msg)
  | evicted (msg : Msg)
  /-- Call `j` takes the list of streams. -/
  | broadcast (j : β) (msg : Msg)
  /-- Call `j` puts the message on the channel of call `i`. -/
  | queued (j : β) (i : ι) (msg : Msg)
deriving DecidableEq

/-- Calls `ι` of `HandStartStream` and `β` of the two others. For each stream there is
its channel, the messages its delivery goroutines hold and how many of them stand at
`closeSteamChan`; `log` is not in the source. -/
structure Hub (ι β : Type) where
  serverPeer : GoMap String (ServerPeer ι)
  streams : ι → StreamAt
  channel : ι → List Msg
  delivering : ι → List Msg
  closers : ι → Nat
  known : StreamType → KnownCache
  calls : β → CallAt ι
  log : List (HubEvent ι β)

/-- The room of a `StreamChan`. -/
def streamRoom : Nat := 1024

def knowBlock : KnownCache := ⟨∅, 12345⟩
def knowTx : KnownCache := ⟨∅, 1024⟩

def Hub.start {ι β : Type} : Hub ι β where
  serverPeer := ∅
  streams _ := .idle
  channel _ := []
  delivering _ := []
  closers _ := 0
  known
    | .block => knowBlock
    | .tx => knowTx
  calls _ := .idle
  log := []

variable {ι β : Type} [DecidableEq ι] [DecidableEq β]

def Hub.setStream (s : Hub ι β) (i : ι) (a : StreamAt) : Hub ι β :=
  { s with streams := update s.streams i a }

def Hub.setCall (s : Hub ι β) (j : β) (c : CallAt ι) : Hub ι β :=
  { s with calls := update s.calls j c }

def Hub.put (s : Hub ι β) (i : ι) (msg : Msg) : Hub ι β :=
  { s with channel := update s.channel i (s.channel i ++ [msg]) }

def Hub.logged (s : Hub ι β) (es : List (HubEvent ι β)) : Hub ι β := { s with log := s.log ++ es }

/-! ## The operations -/

/-- The next operation of `HandStartStream` on the map. -/
def Hub.handStartStream (s : Hub ι β) (i : ι) : Option (Hub ι β) :=
  match s.streams i with
  | .has name => some (s.setStream i (if name ∈ s.serverPeer then .returned else .set name))
  | .set name => some ({ s with serverPeer := s.serverPeer.insert name ⟨name, i⟩ }.setStream i (.serving name))
  | .leaving name => some ({ s with serverPeer := s.serverPeer.erase name }.setStream i .returned)
  | .idle | .serving _ | .returned => none

/-- The serve loop receives a message and starts a goroutine that delivers it. -/
def Hub.receive (s : Hub ι β) (i : ι) : Option (Hub ι β) :=
  match s.streams i, s.channel i with
  | .serving _, msg :: rest =>
    some { s with channel := update s.channel i rest,
                  delivering := update s.delivering i (msg :: s.delivering i) }
  | _, _ => none

/-- A delivery ends; a failed `Send` goes on to `closeSteamChan`, also when the loop
is gone. -/
def Hub.deliver (s : Hub ι β) (i : ι) (msg : Msg) (failed : Bool) : Option (Hub ι β) :=
  if msg ∈ s.delivering i then
    some { s with delivering := update s.delivering i ((s.delivering i).erase msg),
                  closers := if failed then update s.closers i (s.closers i + 1) else s.closers }
  else none

/-- The serve loop receives from `closeSteamChan` and returns. -/
def Hub.closeStream (s : Hub ι β) (i : ι) : Option (Hub ι β) :=
  match s.streams i with
  | .serving name =>
    if 0 < s.closers i then
      some ({ s with closers := update s.closers i (s.closers i - 1) }.setStream i (.leaving name))
    else none
  | _ => none

/-- The next operation of `TransactionProcess` or `BlockProcess`: with the hashes that
`Add` pops, whether the encoding succeeds, and the order of `IterBuffered`. A send
waits for room in the channel. -/
def Hub.process (s : Hub ι β) (j : β) (popped : List Hash) (encodes : Bool) (order : List String) :
    Option (Hub ι β) :=
  match s.calls j with
  | .idle | .returned => none
  | .contains msg =>
    if msg.hash ∈ (s.known msg.streamType).hashes then some (s.setCall j .returned)
    else some ((s.logged [.admitted j msg]).setCall j (.add msg))
  | .add msg =>
    ((s.known msg.streamType).add popped msg.hash).map fun k =>
      ({ s with known := update s.known msg.streamType k }.logged
        (popped.map fun hash => .evicted ⟨msg.streamType, hash⟩)).setCall j (.marshal msg)
  | .marshal msg => some (s.setCall j (if encodes then .iterate msg else .returned))
  | .iterate msg =>
    if Enumerates order s.serverPeer then
      some ((s.logged [.broadcast j msg]).setCall j (.sending msg (order.filterMap s.serverPeer.lookup)))
    else none
  | .sending _ [] => some (s.setCall j .returned)
  | .sending msg (peer :: rest) =>
    if (s.channel peer.streamChan).length < streamRoom then
      some (((s.put peer.streamChan msg).logged [.queued j peer.streamChan msg]).setCall j (.sending msg rest))
    else none

inductive HubAction (ι β : Type)
  | connect (i : ι) (name : String)
  | stream (i : ι)
  | receive (i : ι)
  | deliver (i : ι) (msg : Msg) (failed : Bool)
  | closeStream (i : ι)
  | call (j : β) (msg : Msg)
  | process (j : β) (popped : List Hash) (encodes : Bool) (order : List String)

def Hub.step (s : Hub ι β) : HubAction ι β → Option (Hub ι β)
  | .connect i name => if s.streams i = .idle then some (s.setStream i (.has name)) else none
  | .stream i => s.handStartStream i
  | .receive i => s.receive i
  | .deliver i msg failed => s.deliver i msg failed
  | .closeStream i => s.closeStream i
  | .call j msg => if s.calls j = .idle then some (s.setCall j (.contains msg)) else none
  | .process j popped encodes order => s.process j popped encodes order

/-! ## What an operation leaves alone -/

section Frame
variable {s t : Hub ι β}

namespace Hub

/-- Streams leave the caches, the calls and the log alone. -/
lemma stream_frame {a : HubAction ι β} (hs : s.step a = some t) (hcall : ∀ j msg, a ≠ .call j msg)
    (hprocess : ∀ j popped encodes order, a ≠ .process j popped encodes order) :
    t.known = s.known ∧ t.calls = s.calls ∧ t.log = s.log := by
  cases a with
  | call j msg => exact absurd rfl (hcall j msg)
  | process j popped encodes order => exact absurd rfl (hprocess j popped encodes order)
  | connect | stream | receive | deliver =>
    simp only [step, handStartStream, receive, deliver] at hs
    split at hs <;> cases hs <;> exact ⟨rfl, rfl, rfl⟩
  | closeStream i =>
    simp only [step, closeStream] at hs
    split at hs
    · split at hs <;> cases hs
      exact ⟨rfl, rfl, rfl⟩
    · cases hs

/-- All that the next operation of call `j` can do. -/
inductive Processed (s : Hub ι β) (j : β) : Hub ι β → Prop
  | known (msg : Msg) : s.calls j = .contains msg → msg.hash ∈ (s.known msg.streamType).hashes →
    s.Processed j (s.setCall j .returned)
  | unknown (msg : Msg) : s.calls j = .contains msg → msg.hash ∉ (s.known msg.streamType).hashes →
    s.Processed j ((s.logged [.admitted j msg]).setCall j (.add msg))
  | add (msg : Msg) (popped : List Hash) (k : KnownCache) : s.calls j = .add msg →
    (s.known msg.streamType).add popped msg.hash = some k →
    s.Processed j (({ s with known := update s.known msg.streamType k }.logged
      (popped.map fun hash => .evicted ⟨msg.streamType, hash⟩)).setCall j (.marshal msg))
  | marshal (msg : Msg) (c : CallAt ι) : s.calls j = .marshal msg → (c = .iterate msg ∨ c = .returned) →
    s.Processed j (s.setCall j c)
  | iterate (msg : Msg) (order : List String) : s.calls j = .iterate msg → Enumerates order s.serverPeer →
    s.Processed j ((s.logged [.broadcast j msg]).setCall j (.sending msg (order.filterMap s.serverPeer.lookup)))
  | finish (msg : Msg) : s.calls j = .sending msg [] → s.Processed j (s.setCall j .returned)
  | send (msg : Msg) (peer : ServerPeer ι) (rest : List (ServerPeer ι)) : s.calls j = .sending msg (peer :: rest) →
    s.Processed j
      (((s.put peer.streamChan msg).logged [.queued j peer.streamChan msg]).setCall j (.sending msg rest))

lemma processed {j : β} {encodes : Bool} {order : List String}
    (hs : s.process j popped encodes order = some t) : s.Processed j t := by
  simp only [process] at hs
  split at hs
  · cases hs
  · cases hs
  · next msg hj =>
    split at hs
    · cases hs
      exact .known msg hj ‹_›
    · cases hs
      exact .unknown msg hj ‹_›
  · next msg hj =>
    obtain ⟨k, hk, rfl⟩ := Option.map_eq_some_iff.1 hs
    exact .add msg popped k hj hk
  · next msg hj =>
    cases hs
    refine .marshal msg _ hj ?_
    split
    · exact .inl rfl
    · exact .inr rfl
  · next msg hj =>
    split at hs
    · cases hs
      exact .iterate msg order hj ‹_›
    · cases hs
  · next msg hj =>
    cases hs
    exact .finish msg hj
  · next msg peer rest hj =>
    split at hs
    · cases hs
      exact .send msg peer rest hj
    · cases hs

/-- Calls that broadcast leave the registrations alone. -/
lemma Processed.frame {j : β} (h : s.Processed j t) : t.serverPeer = s.serverPeer ∧ t.streams = s.streams := by
  cases h <;> exact ⟨rfl, rfl⟩

lemma Processed.other {j k : β} (h : s.Processed j t) (hk : k ≠ j) : t.calls k = s.calls k := by
  cases h <;> exact update_of_ne hk _ _

lemma Processed.log {j : β} (h : s.Processed j t) : ∃ es, t.log = s.log ++ es := by
  cases h with
  | known | marshal | finish => exact ⟨[], by simp [setCall]⟩
  | unknown | add | iterate | send => exact ⟨_, rfl⟩

end Hub

end Frame

end TurboOctopus.NodeManager
