import TurboOctopus.Lib.Runs
import TurboOctopus.Types.Header
/-!
# The announcements a peer can make the transaction fetcher hold

`TxFetcher.loop` tracks an announced hash for its peer in `waitslots` while it
waits for a broadcast, and in `announces` once it is queued or being fetched. The
two are limited together, by what one announcement may add.

Which hashes are queued or fetched, and which of them a timeout or a reply gives
up, is left to the events: any choice, so every order of requests, replies and
timers is among the runs.
-/
namespace TurboOctopus.TxFetcher

open Lib TurboOctopus.Types Function List

def maxTxAnnounces : Nat := 4096

/-- The maps that hold announcements. A key that is not in a map has the empty
set; the source deletes an entry whose set becomes empty. -/
structure State where
  waitlist : Hash → Finset String
  waitslots : String → Finset Hash
  announces : String → Finset Hash

def start : State := ⟨fun _ => ∅, fun _ => ∅, fun _ => ∅⟩

inductive Event
  /-- An announcement; `queued` tells the hashes that are in `alternates` or `announced`. -/
  | notify (origin : String) (hashes : List Hash) (queued : Hash → Bool)
  /-- The hashes whose waiting time has run out. -/
  | wait (hashes : List Hash)
  /-- Hashes of a request that timed out, or that its reply left out. -/
  | release (peer : String) (hashes : List Hash)
  | cleanup (hashes : List Hash)
  | drop (peer : String)

namespace State

/-- `len(f.waitslots[peer]) + len(f.announces[peer])` -/
def used (s : State) (peer : String) : Nat := (s.waitslots peer).card + (s.announces peer).card

/-- The part of an announcement that is scheduled. -/
def kept (s : State) (origin : String) (hashes : List Hash) : List Hash :=
  if maxTxAnnounces ≤ s.used origin then []
  else
    let want := s.used origin + hashes.length
    if maxTxAnnounces < want then hashes.take (want - maxTxAnnounces) else hashes

/-- One hash of an announcement: with the queued ones of its peer, or on the waiting list. -/
def track (origin : String) (queued : Hash → Bool) (s : State) (hash : Hash) : State :=
  if queued hash then
    { s with announces := update s.announces origin (insert hash (s.announces origin)) }
  else
    { s with
      waitlist := update s.waitlist hash (insert origin (s.waitlist hash))
      waitslots := update s.waitslots origin (insert hash (s.waitslots origin)) }

/-- A hash goes from the waiting list to the queue, for all its peers. -/
def queue (s : State) (hash : Hash) : State where
  waitlist := update s.waitlist hash ∅
  waitslots peer := if peer ∈ s.waitlist hash then (s.waitslots peer).erase hash else s.waitslots peer
  announces peer := if peer ∈ s.waitlist hash then insert hash (s.announces peer) else s.announces peer

/-- A delivered hash is no longer tracked. -/
def deliver (s : State) (hash : Hash) : State :=
  if s.waitlist hash = ∅ then { s with announces := fun peer => (s.announces peer).erase hash }
  else
    { s with
      waitlist := update s.waitlist hash ∅
      waitslots := fun peer => (s.waitslots peer).erase hash }

def step (s : State) : Event → State
  | .notify origin hashes queued => (s.kept origin hashes).foldl (track origin queued) s
  | .wait hashes => hashes.foldl queue s
  | .release peer hashes =>
    { s with announces := update s.announces peer (s.announces peer \ hashes.toFinset) }
  | .cleanup hashes => hashes.foldl deliver s
  | .drop peer =>
    { waitlist := fun hash => if hash ∈ s.waitslots peer then (s.waitlist hash).erase peer else s.waitlist hash
      waitslots := update s.waitslots peer ∅
      announces := update s.announces peer ∅ }

end State

/-! ## What one event adds -/

variable {s : State} {origin peer : String} {hash : Hash} {queued : Hash → Bool} {hashes : List Hash}

/-- A peer on the waiting list of a hash has a slot for it. -/
def Slotted (s : State) : Prop := ∀ peer hash, peer ∈ s.waitlist hash → hash ∈ s.waitslots peer

/-- The hashes held for a peer. -/
def State.held (s : State) (peer : String) : Finset Hash := s.waitslots peer ∪ s.announces peer

open State

lemma slotted_track (h : Slotted s) : Slotted (s.track origin queued hash) := by
  unfold track
  split
  · exact h
  · intro p k hp
    by_cases hpo : p = origin
    · subst hpo
      by_cases hk : k = hash
      · simp [hk]
      · simp only [update_of_ne hk] at hp
        simp [h p k hp]
    · have hwait : p ∈ s.waitlist k := by
        by_cases hk : k = hash
        · subst hk
          simpa [hpo] using hp
        · simpa [hk] using hp
      simpa [hpo] using h p k hwait

lemma used_track (s : State) (origin peer : String) (queued : Hash → Bool) (hash : Hash) :
    (s.track origin queued hash).used peer ≤ s.used peer + if peer = origin then 1 else 0 := by
  unfold track used
  split
  · by_cases hp : peer = origin
    · subst hp
      have hcard := Finset.card_insert_le hash (s.announces peer)
      simp
      omega
    · simp [hp]
  · by_cases hp : peer = origin
    · subst hp
      have hcard := Finset.card_insert_le hash (s.waitslots peer)
      simp
      omega
    · simp [hp]

lemma held_track : (s.track origin queued hash).held origin = insert hash (s.held origin) := by
  unfold track held
  split
  · simp
  · simp

lemma slotted_tracks (h : Slotted s) : Slotted (hashes.foldl (track origin queued) s) := by
  induction hashes generalizing s with
  | nil => exact h
  | cons k hashes ih => exact ih (slotted_track h)

lemma used_tracks : (hashes.foldl (track origin queued) s).used peer ≤
    s.used peer + if peer = origin then hashes.length else 0 := by
  induction hashes generalizing s with
  | nil => simp
  | cons k hashes ih =>
    have hone := used_track s origin peer queued k
    have hrest := ih (s := s.track origin queued k)
    rw [foldl_cons]
    by_cases hp : peer = origin
    · simp only [hp, if_true, length_cons] at hone hrest ⊢
      omega
    · simp only [hp, if_false] at hone hrest ⊢
      omega

/-- Exactly the scheduled part is tracked in addition. -/
lemma held_tracks (queued : Hash → Bool) : (hashes.foldl (track origin queued) s).held origin = hashes.toFinset ∪ s.held origin := by
  induction hashes generalizing s with
  | nil => simp
  | cons k hashes ih =>
    rw [foldl_cons, ih, held_track]
    simp

/-- Every peer of the hash gives up the slot it gets an announcement for. -/
lemma queue_le (h : Slotted s) : Slotted (s.queue hash) ∧ ∀ peer, (s.queue hash).used peer ≤ s.used peer := by
  constructor
  · intro p k hp
    by_cases hk : k = hash
    · subst hk
      simp [queue] at hp
    · simp only [queue, update_of_ne hk] at hp ⊢
      have hslot := h p k hp
      split
      · exact Finset.mem_erase.2 ⟨hk, hslot⟩
      · exact hslot
  · intro p
    unfold queue used
    dsimp only
    split
    next hp =>
      have herase := Finset.card_erase_add_one (h p hash hp)
      have hinsert := Finset.card_insert_le hash (s.announces p)
      omega
    · exact le_refl _

lemma deliver_le (h : Slotted s) : Slotted (s.deliver hash) ∧ ∀ peer, (s.deliver hash).used peer ≤ s.used peer := by
  unfold deliver
  split
  · exact ⟨h, fun p => Nat.add_le_add_left (Finset.card_erase_le) _⟩
  · refine ⟨fun p k hp => ?_, fun p => Nat.add_le_add_right (Finset.card_erase_le) _⟩
    by_cases hk : k = hash
    · subst hk
      simp at hp
    · simp only [update_of_ne hk] at hp
      exact Finset.mem_erase.2 ⟨hk, h p k hp⟩

lemma foldl_le {f : State → Hash → State}
    (hf : ∀ s k, Slotted s → Slotted (f s k) ∧ ∀ peer, (f s k).used peer ≤ s.used peer) (h : Slotted s) :
    Slotted (hashes.foldl f s) ∧ ∀ peer, (hashes.foldl f s).used peer ≤ s.used peer := by
  induction hashes generalizing s with
  | nil => exact ⟨h, fun _ => le_refl _⟩
  | cons k hashes ih =>
    obtain ⟨hslot, hle⟩ := hf s k h
    obtain ⟨hslots, hles⟩ := ih hslot
    exact ⟨hslots, fun p => (hles p).trans (hle p)⟩

lemma drop_le (h : Slotted s) : Slotted (s.step (.drop peer)) ∧ ∀ p, (s.step (.drop peer)).used p ≤ s.used p := by
  constructor
  · intro p k hp
    simp only [step] at hp ⊢
    by_cases hpeer : p = peer
    · subst hpeer
      split at hp
      · exact absurd hp (Finset.notMem_erase p _)
      · exact absurd (h p k hp) ‹_›
    · rw [update_of_ne hpeer]
      split at hp
      · exact h p k (Finset.mem_of_mem_erase hp)
      · exact h p k hp
  · intro p
    unfold used step
    by_cases hp : p = peer <;> simp [hp]

/-! ## The limit -/

/-- The announcements that are cut where they should be: those that arrive at the
limit, those that fit, and those longer than what is left by as much as is left. -/
def State.Fits (s : State) (origin : String) (hashes : List Hash) : Prop :=
  maxTxAnnounces ≤ s.used origin ∨ s.used origin + hashes.length ≤ maxTxAnnounces ∨
    2 * s.used origin + hashes.length = 2 * maxTxAnnounces

def Event.Fits (s : State) : Event → Prop
  | .notify origin hashes _ => s.Fits origin hashes
  | _ => True

lemma kept_eq_iff (s : State) (origin : String) (hashes : List Hash) :
    s.kept origin hashes = hashes.take (maxTxAnnounces - s.used origin) ↔ s.Fits origin hashes := by
  unfold kept State.Fits
  dsimp only
  split
  next hfull => simp [Nat.sub_eq_zero_of_le hfull, hfull]
  next hroom =>
    split
    next hlong =>
      -- two beginnings of a list are equal when they are equally long
      rw [take_eq_take_iff]
      omega
    next hshort =>
      rw [take_of_length_le (by omega)]
      simp only [true_iff]
      omega

lemma Slotted.step {e : Event} (h : Slotted s) (hle : ∀ p, s.used p ≤ maxTxAnnounces) (hfits : e.Fits s) :
    Slotted (s.step e) ∧ ∀ p, (s.step e).used p ≤ maxTxAnnounces := by
  have of_le {t : State} (ht : Slotted t ∧ ∀ p, t.used p ≤ s.used p) :
      Slotted t ∧ ∀ p, t.used p ≤ maxTxAnnounces := ⟨ht.1, fun p => (ht.2 p).trans (hle p)⟩
  cases e with
  | notify origin hashes queued =>
    refine ⟨slotted_tracks h, fun p => used_tracks.trans ?_⟩
    rw [(kept_eq_iff s origin hashes).2 hfits]
    have hroom := hle p
    split
    next hp =>
      subst hp
      have hlen := length_take_le (maxTxAnnounces - s.used p) hashes
      omega
    · omega
  | wait hashes => exact of_le (foldl_le (fun _ _ => queue_le) h)
  | release peer hashes =>
    refine of_le ⟨h, fun p => ?_⟩
    unfold State.used State.step
    by_cases hp : p = peer
    · subst hp
      simpa using Finset.card_le_card Finset.sdiff_subset
    · simp [hp]
  | cleanup hashes => exact of_le (foldl_le (fun _ _ => deliver_le) h)
  | drop peer => exact of_le (drop_le h)

/-- The events of a run, each in the state it meets. -/
abbrev Events (ok : State → Event → Prop) : State → List Event → State → Prop := Run fun s e t => ok s e ∧ t = s.step e

/-- In every run whose announcements fit, no peer holds more than the limit in any
state, and of an announcement exactly the hashes up to the limit are tracked. The
announcements that do not fit are those cut at another place. -/
theorem announcements_limited {es : List Event} (hrun : Events (fun s e => e.Fits s) start es s) :
    (∀ peer, s.used peer ≤ maxTxAnnounces) ∧
    ∀ origin hashes, (s.kept origin hashes = hashes.take (maxTxAnnounces - s.used origin) ↔ s.Fits origin hashes) ∧
      (s.Fits origin hashes → ∀ queued, (s.step (.notify origin hashes queued)).held origin =
        (hashes.take (maxTxAnnounces - s.used origin)).toFinset ∪ s.held origin) := by
  have hinv : Slotted s ∧ ∀ p, s.used p ≤ maxTxAnnounces := by
    refine Run.inv (fun s => Slotted s ∧ ∀ p, s.used p ≤ maxTxAnnounces) hrun ?_ fun s e t hs hstep => ?_
    · exact ⟨fun p k hp => absurd hp (Finset.notMem_empty p), fun p => Nat.zero_le _⟩
    · rw [hstep.2]
      exact hs.1.step hs.2 hstep.1
  refine ⟨hinv.2, fun origin hashes => ⟨kept_eq_iff s origin hashes, fun hfits queued => ?_⟩⟩
  rw [← (kept_eq_iff s origin hashes).2 hfits]
  exact held_tracks queued

def hashAt (n : Nat) : Hash := BitVec.ofNat 256 n

lemma card_hashAt {n : Nat} (hn : n < 2 ^ 256) : ((List.range n).map hashAt).toFinset.card = n := by
  rw [toFinset_card_of_nodup, length_map, length_range]
  refine List.Nodup.map_on (fun x hx y hy hxy => ?_) nodup_range
  have hval := congrArg BitVec.toNat hxy
  rw [mem_range] at hx hy
  rwa [hashAt, hashAt, BitVec.toNat_ofNat, BitVec.toNat_ofNat, Nat.mod_eq_of_lt (hx.trans hn),
    Nat.mod_eq_of_lt (hy.trans hn)] at hval

/-- New hashes only wait, so the waiting slots are all that is held. -/
lemma used_tracks_new (hashes : List Hash) (hs : s.announces origin = ∅) :
    (hashes.foldl (track origin fun _ => false) s).announces origin = ∅ ∧
      (hashes.foldl (track origin fun _ => false) s).used origin = (hashes.toFinset ∪ s.held origin).card := by
  have hnone : (hashes.foldl (track origin fun _ => false) s).announces origin = ∅ := by
    induction hashes generalizing s with
    | nil => exact hs
    | cons k hashes ih => exact ih hs
  refine ⟨hnone, ?_⟩
  rw [← held_tracks fun _ => false, held, used, hnone, Finset.union_empty, Finset.card_empty, Nat.add_zero]

/-- An announcement of `n` hashes. -/
def firstHashes (n : Nat) : Event := .notify "peer" ((List.range n).map hashAt) fun _ => false

lemma lt_of_max {n : Nat} (hn : maxTxAnnounces = n + 1) : n + 2 < 2 ^ 256 :=
  lt_of_lt_of_le (by simp only [maxTxAnnounces] at hn; omega) (by decide : 5000 ≤ 2 ^ 256)

lemma used_firstHashes {n : Nat} (hn : maxTxAnnounces = n + 1) :
    (start.step (firstHashes n)).announces "peer" = ∅ ∧ (start.step (firstHashes n)).used "peer" = n ∧
      (start.step (firstHashes n)).held "peer" = ((List.range n).map hashAt).toFinset := by
  have hsmall : n < 2 ^ 256 := (Nat.le_add_right n 2).trans_lt (lt_of_max hn)
  have hstep : start.step (firstHashes n) = ((List.range n).map hashAt).foldl (State.track "peer" fun _ => false) start := by
    change (start.kept "peer" _).foldl _ _ = _
    simp [State.kept, State.used, start, hn]
  obtain ⟨hnone, hused⟩ := used_tracks_new ((List.range n).map hashAt) (rfl : start.announces "peer" = ∅)
  rw [← hstep] at hnone hused
  refine ⟨hnone, ?_, ?_⟩
  · rw [hused]
    simpa [State.held, start] using card_hashAt hsmall
  · rw [hstep, held_tracks]
    simp [State.held, start]

/-- With one hash less than the limit held, an announcement of two is cut to one. -/
theorem announcements_limited_cut : ∃ n s, maxTxAnnounces = n + 1 ∧ Events (fun s e => e.Fits s) start [firstHashes n] s ∧
    (s.step (.notify "peer" [hashAt n, hashAt (n + 1)] fun _ => false)).held "peer" = insert (hashAt n) (s.held "peer") := by
  obtain ⟨n, hn⟩ : ∃ n, maxTxAnnounces = n + 1 := ⟨4095, rfl⟩
  have hfits : (firstHashes n).Fits start := .inr (.inl (by simp [State.used, start, hn]))
  have hrun : Events (fun s e => e.Fits s) start [firstHashes n] _ := .single ⟨hfits, rfl⟩
  obtain ⟨-, hused, -⟩ := used_firstHashes hn
  refine ⟨n, _, hn, hrun, ?_⟩
  rw [((announcements_limited hrun).2 _ _).2 (.inr (.inr (by rw [hused, hn, length_cons, length_singleton]; omega))), hused, hn]
  simp

/-- An announcement of three is cut to two. -/
theorem second_announcement_exceeds :
    ¬ ∀ es s, Events (fun _ _ => True) start es s → ∀ peer, s.used peer ≤ maxTxAnnounces := by
  intro h
  obtain ⟨n, hn⟩ : ∃ n, maxTxAnnounces = n + 1 := ⟨4095, rfl⟩
  let short : List Hash := [hashAt n, hashAt (n + 1), hashAt (n + 2)]
  let mid := start.step (firstHashes n)
  have hrun : Events (fun _ _ => True) start [firstHashes n, .notify "peer" short fun _ => false] _ :=
    .cons ⟨trivial, rfl⟩ (.single ⟨trivial, rfl⟩)
  have hlimit := h _ _ hrun "peer"
  change ((mid.kept "peer" short).foldl (State.track "peer" fun _ => false) mid).used "peer" ≤ _ at hlimit
  obtain ⟨hnone, hused, hheld⟩ := used_firstHashes hn
  have hkept : mid.kept "peer" short = [hashAt n, hashAt (n + 1)] := by
    simp [State.kept, mid, hused, hn, short]
  have hall : [hashAt n, hashAt (n + 1)].toFinset ∪ ((List.range n).map hashAt).toFinset =
      ((List.range (n + 2)).map hashAt).toFinset := by
    rw [range_succ, range_succ]
    simp [Finset.union_comm]
  rw [(used_tracks_new _ hnone).2, hkept, hheld, hall, card_hashAt (lt_of_max hn)] at hlimit
  omega

end TurboOctopus.TxFetcher
