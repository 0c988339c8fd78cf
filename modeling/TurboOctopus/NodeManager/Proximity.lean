import TurboOctopus.Lib.Maps
import TurboOctopus.Parlia.Basic
/-!
# Peers close to a miner

For each miner, `BlockProcess` keeps the peers that were first to deliver its
latest block. A higher block starts the list anew. Every other block is added to
it, also an older one and one the peer has delivered before, so the list is what
it is meant to be exactly as long as no such block comes while it has room
(`proximity_iff`).
-/
namespace TurboOctopus.NodeManager

open Lib TurboOctopus.Types List

structure CoinBaseInfo where
  lastBlock : Int64
  peerIdList : List String
deriving DecidableEq

/-- The limit of `PeerIdList`. -/
def maxPeerIds : Nat := 60

/-- One call of `BlockProcess`, for its first part: the header of the block and
the id of the peer. -/
structure Arrival where
  block : Header
  peer : String

def Arrival.coinbase (a : Arrival) : Address := a.block.coinbase

/-- `block.Number()`. -/
def Arrival.number (a : Arrival) : Nat := a.block.number.getD 0

/-- `block.Number().Int64()`: the low 64 bits, read with a sign. -/
def Arrival.int64 (a : Arrival) : Int64 := a.block.num.toInt64

/-- What `BlockProcess` does to an entry. -/
def CoinBaseInfo.update (info : CoinBaseInfo) (a : Arrival) : CoinBaseInfo :=
  if info.lastBlock < a.int64 then ⟨a.int64, [a.peer]⟩
  else if info.peerIdList.length < maxPeerIds then { info with peerIdList := info.peerIdList ++ [a.peer] }
  else info

/-- `coinBaseList`, by miner. The program writes the address as a string in lower case. -/
abbrev CoinBaseList := GoMap Address CoinBaseInfo

def CoinBaseList.record (list : CoinBaseList) (a : Arrival) : CoinBaseList :=
  match list.lookup a.coinbase with
  | some info => list.insert a.coinbase (info.update a)
  | none => list.insert a.coinbase ⟨a.int64, [a.peer]⟩

/-- The list after some calls, from the empty one. -/
def recorded (arrivals : List Arrival) : CoinBaseList := arrivals.foldl CoinBaseList.record ∅

/-! ## What the lists are for -/

/-- The peers that delivered a block of the miner at the height, in order, as
often as they did. -/
def deliverers (arrivals : List Arrival) (miner : Address) (height : Int) : List String :=
  (arrivals.filter fun a => a.coinbase = miner ∧ (a.number : Int) = height).map Arrival.peer

/-- The entry names the largest number that came from the miner, and peers that
delivered that block, in the order in which they first did. -/
structure Proximate (arrivals : List Arrival) (miner : Address) (info : CoinBaseInfo) : Prop where
  seen : ∃ a ∈ arrivals, a.coinbase = miner ∧ info.lastBlock.toInt = a.number
  largest : ∀ a ∈ arrivals, a.coinbase = miner → (a.number : Int) ≤ info.lastBlock.toInt
  atMost : info.peerIdList.length ≤ maxPeerIds
  distinct : info.peerIdList.Nodup
  delivered : ∀ p ∈ info.peerIdList, p ∈ deliverers arrivals miner info.lastBlock.toInt
  ordered : info.peerIdList.Pairwise fun p q =>
    (deliverers arrivals miner info.lastBlock.toInt).idxOf p < (deliverers arrivals miner info.lastBlock.toInt).idxOf q

/-- Every entry is. -/
def Correct (arrivals : List Arrival) (list : CoinBaseList) : Prop :=
  ∀ miner info, list.lookup miner = some info → Proximate arrivals miner info

/-- The number fits a signed word, and the block is higher than the last one of
its miner, or comes when the list is full, or is the last one from a peer that is
not listed yet. -/
def Fits (list : CoinBaseList) (a : Arrival) : Prop :=
  a.number < 2 ^ 63 ∧ ∀ info, list.lookup a.coinbase = some info →
    info.lastBlock.toInt < a.number ∨ maxPeerIds ≤ info.peerIdList.length ∨
      ((a.number : Int) = info.lastBlock.toInt ∧ a.peer ∉ info.peerIdList)

section Numbers
variable {a : Arrival}

lemma int64_of_lt (h : a.number < 2 ^ 63) : a.int64.toInt = a.number := by
  have hn : a.block.num.toNat = a.number := u64_ofNat (by simp only [Arrival.number] at h ⊢; omega)
  rw [Arrival.int64, ← Int64.toInt_toBitVec, UInt64.toBitVec_toInt64, BitVec.toInt_eq_toNat_cond,
    UInt64.toNat_toBitVec, hn, if_pos (by omega)]

lemma int64_lt (x : Int64) : x.toInt < 2 ^ 63 := x.toInt_lt

lemma lt_int64_iff (h : a.number < 2 ^ 63) (x : Int64) : x < a.int64 ↔ x.toInt < a.number := by
  rw [Int64.lt_iff_toInt_lt, int64_of_lt h]

end Numbers

section Deliverers
variable {arrivals : List Arrival} {a : Arrival} {miner : Address} {height : Int}

lemma deliverers_append_of_not (h : ¬ (a.coinbase = miner ∧ (a.number : Int) = height)) :
    deliverers (arrivals ++ [a]) miner height = deliverers arrivals miner height := by
  simp [deliverers, filter_append, h]

lemma deliverers_append_of (h : a.coinbase = miner ∧ (a.number : Int) = height) :
    deliverers (arrivals ++ [a]) miner height = deliverers arrivals miner height ++ [a.peer] := by
  simp [deliverers, filter_append, h]

/-- A new delivery leaves the first one of every peer where it is. -/
lemma idxOf_deliverers_append {p : String} (h : p ∈ deliverers arrivals miner height) :
    (deliverers (arrivals ++ [a]) miner height).idxOf p = (deliverers arrivals miner height).idxOf p := by
  by_cases ha : a.coinbase = miner ∧ (a.number : Int) = height
  · rw [deliverers_append_of ha, idxOf_append_of_mem h]
  · rw [deliverers_append_of_not ha]

lemma mem_deliverers_append {p : String} (h : p ∈ deliverers arrivals miner height) :
    p ∈ deliverers (arrivals ++ [a]) miner height := by
  by_cases ha : a.coinbase = miner ∧ (a.number : Int) = height
  · rw [deliverers_append_of ha]
    exact mem_append_left _ h
  · rwa [deliverers_append_of_not ha]

lemma deliverers_eq_nil (h : ∀ b ∈ arrivals, b.coinbase = miner → (b.number : Int) < height) :
    deliverers arrivals miner height = [] := by
  rw [deliverers, map_eq_nil_iff, filter_eq_nil_iff]
  intro b hb hm
  rw [decide_eq_true_eq] at hm
  exact absurd (h b hb hm.1) (by omega)

end Deliverers

/-! ## One call -/

/-- The entry is as it should be, and names every deliverer while it has room. -/
structure Listed (arrivals : List Arrival) (miner : Address) (info : CoinBaseInfo) : Prop
    extends Proximate arrivals miner info where
  complete : info.peerIdList.length < maxPeerIds →
    ∀ p ∈ deliverers arrivals miner info.lastBlock.toInt, p ∈ info.peerIdList

section Entry
variable {arrivals : List Arrival} {a : Arrival} {miner : Address} {info : CoinBaseInfo}

/-- A delivery that does not raise the largest number keeps what was listed. -/
lemma Proximate.keep (h : Proximate arrivals miner info)
    (ha : a.coinbase = miner → (a.number : Int) ≤ info.lastBlock.toInt) :
    Proximate (arrivals ++ [a]) miner info where
  __ := h
  seen := by
    obtain ⟨b, hb, hm⟩ := h.seen
    exact ⟨b, mem_append_left _ hb, hm⟩
  largest := forall_mem_append.2 ⟨h.largest, forall_mem_singleton.2 ha⟩
  delivered := fun p hp => mem_deliverers_append (h.delivered p hp)
  ordered := by
    refine h.ordered.imp_of_mem fun hp hq hlt => ?_
    rwa [idxOf_deliverers_append (h.delivered _ hp), idxOf_deliverers_append (h.delivered _ hq)]

lemma Listed.other (h : Listed arrivals miner info) (ha : a.coinbase ≠ miner) :
    Listed (arrivals ++ [a]) miner info where
  toProximate := h.toProximate.keep fun hm => absurd hm ha
  complete := by
    rw [deliverers_append_of_not fun hm => ha hm.1]
    exact h.complete

lemma Listed.full (h : Listed arrivals miner info) (hle : (a.number : Int) ≤ info.lastBlock.toInt)
    (hfull : maxPeerIds ≤ info.peerIdList.length) : Listed (arrivals ++ [a]) miner info where
  toProximate := h.toProximate.keep fun _ => hle
  complete := fun hlt => absurd hlt (by omega)

/-- The first block of a miner, or a higher one than before. -/
lemma Listed.first (hn : a.number < 2 ^ 63) (hall : ∀ b ∈ arrivals, b.coinbase = a.coinbase → b.number < a.number) :
    Listed (arrivals ++ [a]) a.coinbase ⟨a.int64, [a.peer]⟩ := by
  have hint : a.int64.toInt = a.number := int64_of_lt hn
  have hd : deliverers (arrivals ++ [a]) a.coinbase a.int64.toInt = [a.peer] := by
    rw [hint, deliverers_append_of ⟨rfl, rfl⟩, deliverers_eq_nil fun b hb hm => Int.ofNat_lt.2 (hall b hb hm)]
    rfl
  refine { seen := ⟨a, by simp, rfl, hint⟩, largest := ?_, atMost := by simp [maxPeerIds], distinct := by simp,
           delivered := by simp [hd], ordered := by simp, complete := by simp [hd] }
  rw [hint]
  exact forall_mem_append.2 ⟨fun b hb hm => Int.ofNat_le.2 (hall b hb hm).le, forall_mem_singleton.2 fun _ => le_rfl⟩

/-- The last block again, from a peer that is not listed. While there is room that
peer has not delivered it before, so it comes last. -/
lemma Listed.add (h : Listed arrivals a.coinbase info) (heq : (a.number : Int) = info.lastBlock.toInt)
    (hnot : a.peer ∉ info.peerIdList) (hroom : info.peerIdList.length < maxPeerIds) :
    Listed (arrivals ++ [a]) a.coinbase { info with peerIdList := info.peerIdList ++ [a.peer] } := by
  have hkeep := h.toProximate.keep (a := a) fun _ => heq.le
  have hd : deliverers (arrivals ++ [a]) a.coinbase info.lastBlock.toInt =
      deliverers arrivals a.coinbase info.lastBlock.toInt ++ [a.peer] := deliverers_append_of ⟨rfl, heq⟩
  have hnew : a.peer ∉ deliverers arrivals a.coinbase info.lastBlock.toInt := fun hm =>
    hnot (h.complete hroom _ hm)
  refine { seen := hkeep.seen, largest := hkeep.largest, atMost := ?_, distinct := ?_, delivered := ?_,
           ordered := ?_, complete := ?_ }
  · simp only [length_append, length_singleton]
    omega
  · exact h.distinct.append (nodup_singleton _) (disjoint_singleton.2 hnot)
  · refine forall_mem_append.2 ⟨hkeep.delivered, fun p hp => ?_⟩
    rw [hd]
    exact mem_append_right _ hp
  · refine pairwise_append.2 ⟨hkeep.ordered, by simp, fun p hp q hq => ?_⟩
    rw [mem_singleton] at hq
    subst hq
    have hlt : (deliverers arrivals a.coinbase info.lastBlock.toInt).idxOf p <
        (deliverers arrivals a.coinbase info.lastBlock.toInt).length := idxOf_lt_length_of_mem (h.delivered p hp)
    rw [hd, idxOf_append_of_mem (h.delivered p hp), idxOf_append_of_notMem hnew]
    omega
  · intro _
    rw [hd]
    exact forall_mem_append.2 ⟨fun p hp => mem_append_left _ (h.complete hroom p hp), fun p => mem_append_right _⟩

end Entry

/-- Kept while every call fits. -/
structure Recorded (arrivals : List Arrival) (list : CoinBaseList) : Prop where
  entry : ∀ miner info, list.lookup miner = some info → Listed arrivals miner info
  absent : ∀ miner, list.lookup miner = none → ∀ a ∈ arrivals, a.coinbase ≠ miner

section Record
variable {arrivals : List Arrival} {list : CoinBaseList} {a : Arrival} {info : CoinBaseInfo}

lemma lookup_record_of_ne {miner : Address} (h : miner ≠ a.coinbase) :
    (list.record a).lookup miner = list.lookup miner := by
  unfold CoinBaseList.record
  split <;> exact Finmap.lookup_insert_of_ne _ h

lemma lookup_record_some (h : list.lookup a.coinbase = some info) :
    (list.record a).lookup a.coinbase = some (info.update a) := by
  simp only [CoinBaseList.record, h, Finmap.lookup_insert]

lemma lookup_record_none (h : list.lookup a.coinbase = none) :
    (list.record a).lookup a.coinbase = some ⟨a.int64, [a.peer]⟩ := by
  simp only [CoinBaseList.record, h, Finmap.lookup_insert]

/-- The entry of the miner after a call that fits. -/
lemma Recorded.listed (h : Recorded arrivals list) (hfit : Fits list a) (hl : (list.record a).lookup a.coinbase = some info) :
    Listed (arrivals ++ [a]) a.coinbase info := by
  obtain ⟨hn, hfit⟩ := hfit
  cases hold : list.lookup a.coinbase with
  | none =>
    rw [lookup_record_none hold] at hl
    cases hl
    exact .first hn fun b hb hm => absurd hm (h.absent _ hold b hb)
  | some old =>
    have hentry := h.entry _ _ hold
    rw [lookup_record_some hold] at hl
    cases hl
    unfold CoinBaseInfo.update
    by_cases hhigher : old.lastBlock.toInt < a.number
    · rw [if_pos ((lt_int64_iff hn _).2 hhigher)]
      exact .first hn fun b hb hm => Int.ofNat_lt.1 ((hentry.largest b hb hm).trans_lt hhigher)
    · rw [if_neg fun hlt => hhigher ((lt_int64_iff hn _).1 hlt)]
      by_cases hroom : old.peerIdList.length < maxPeerIds
      · rw [if_pos hroom]
        rcases hfit old hold with hlt | hfull | ⟨heq, hnot⟩
        · exact absurd hlt hhigher
        · exact absurd hroom (by omega)
        · exact hentry.add heq hnot hroom
      · rw [if_neg hroom]
        exact hentry.full (by omega) (by omega)

lemma Recorded.step (h : Recorded arrivals list) (hfit : Fits list a) :
    Recorded (arrivals ++ [a]) (list.record a) := by
  constructor
  · intro miner info hl
    by_cases hm : miner = a.coinbase
    · subst hm
      exact h.listed hfit hl
    · rw [lookup_record_of_ne hm] at hl
      exact (h.entry miner info hl).other (Ne.symm hm)
  · intro miner hl
    have hm : miner ≠ a.coinbase := by
      rintro rfl
      cases hold : list.lookup a.coinbase with
      | none => rw [lookup_record_none hold] at hl; cases hl
      | some old => rw [lookup_record_some hold] at hl; cases hl
    rw [lookup_record_of_ne hm] at hl
    exact forall_mem_append.2 ⟨h.absent miner hl, forall_mem_singleton.2 hm.symm⟩

/-- A call that does not fit leaves an entry that is wrong. -/
lemma Recorded.fits_of_correct (h : Recorded arrivals list) (hc : Correct (arrivals ++ [a]) (list.record a)) :
    Fits list a := by
  have hn : a.number < 2 ^ 63 := by
    obtain ⟨info, hl⟩ : ∃ info, (list.record a).lookup a.coinbase = some info := by
      cases hold : list.lookup a.coinbase with
      | none => exact ⟨_, lookup_record_none hold⟩
      | some old => exact ⟨_, lookup_record_some hold⟩
    have hle := (hc _ _ hl).largest a (by simp) rfl
    have hlt := int64_lt info.lastBlock
    omega
  refine ⟨hn, fun info hold => ?_⟩
  by_contra hno
  simp only [not_or, not_lt, not_le, not_and, not_not] at hno
  obtain ⟨hlow, hroom, hsame⟩ := hno
  have hentry := h.entry _ _ hold
  have hafter := hc _ _ (lookup_record_some hold)
  rw [CoinBaseInfo.update, if_neg fun hlt => absurd ((lt_int64_iff hn _).1 hlt) (by omega), if_pos hroom] at hafter
  -- The peer is listed twice, or it is listed for a block that it did not deliver.
  have hnot : a.peer ∉ info.peerIdList := by
    intro hmem
    have hdup := hafter.distinct
    rw [nodup_append] at hdup
    exact hdup.2.2 a.peer hmem a.peer (by simp) rfl
  have hlower : (a.number : Int) ≠ info.lastBlock.toInt := fun heq => hnot (hsame heq)
  have hdel := hafter.delivered a.peer (by simp)
  rw [deliverers_append_of_not fun hm => hlower hm.2] at hdel
  exact hnot (hentry.complete hroom _ hdel)

end Record

/-! ## Over whole runs -/

lemma recorded_append (arrivals : List Arrival) (a : Arrival) :
    recorded (arrivals ++ [a]) = (recorded arrivals).record a := by
  simp [recorded]

lemma recorded_of_fits (arrivals : List Arrival)
    (h : ∀ pre a post, arrivals = pre ++ a :: post → Fits (recorded pre) a) : Recorded arrivals (recorded arrivals) := by
  induction arrivals using List.reverseRecOn with
  | nil => exact ⟨fun miner info hl => by simp [recorded] at hl, by simp⟩
  | append_singleton arrivals a ih =>
    rw [recorded_append]
    refine (ih fun pre b post hb => h pre b (post ++ [a]) (by simp [hb])).step (h arrivals a [] rfl)

/-- After every call the lists are what they are meant to be, exactly if every
call fits the list it finds. -/
theorem proximity_iff (arrivals : List Arrival) :
    (∀ pre, pre <+: arrivals → Correct pre (recorded pre)) ↔
      ∀ pre a post, arrivals = pre ++ a :: post → Fits (recorded pre) a := by
  constructor
  · intro hcorrect
    -- The calls before each one fit, so that it is the first that could fail.
    induction arrivals using List.reverseRecOn with
    | nil => intro pre a post h; simp at h
    | append_singleton arrivals last ih =>
      have hbefore := ih fun pre hpre => hcorrect pre (hpre.trans (prefix_append _ _))
      intro pre a post h
      rcases eq_nil_or_concat post with rfl | ⟨post, b, rfl⟩
      · obtain ⟨rfl, hlast⟩ := append_inj' h rfl
        cases hlast
        have hc := hcorrect _ (prefix_refl _)
        rw [recorded_append] at hc
        exact (recorded_of_fits _ hbefore).fits_of_correct hc
      · have hsplit : arrivals ++ [last] = (pre ++ a :: post) ++ [b] := by simpa using h
        exact hbefore pre a post (append_inj' hsplit rfl).1
  · intro hfit pre hpre miner info hl
    obtain ⟨rest, rfl⟩ := hpre
    exact ((recorded_of_fits pre fun p a q e => hfit p a (q ++ rest) (by simp [e])).entry miner info hl).toProximate

/-- Block `number` of miner 1. -/
def minedBy (number : Nat) : Header := { Parlia.smallHeader 0 0 1 [] Parlia.few_none with number := some number }

/-- After block 11 from one peer, block 10 comes late from another, which is then
listed for block 11. -/
theorem late_peer_listed : ∃ info,
    (recorded [⟨minedBy 11, "a"⟩, ⟨minedBy 10, "b"⟩]).lookup 1 = some info ∧
      info.lastBlock = 11 ∧ info.peerIdList = ["a", "b"] ∧
      ¬ Proximate [⟨minedBy 11, "a"⟩, ⟨minedBy 10, "b"⟩] 1 info := by
  refine ⟨⟨11, ["a", "b"]⟩, by decide +kernel, rfl, rfl, fun h => ?_⟩
  have hdel := h.delivered "b" (by simp)
  revert hdel
  decide +kernel

end TurboOctopus.NodeManager
