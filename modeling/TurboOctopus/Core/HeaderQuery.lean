import TurboOctopus.Core.GetAncestor

/-!
# Header queries

`ServiceGetBlockHeadersQuery` answers with no more headers than are asked for and than it
may serve, but for an amount of 0: then it sends a known origin all the same, and with a
canonical one its ancestors. A header stands for its encoding, of the given size.
-/

namespace TurboOctopus.Core

open Lib List HeaderChain

def maxHeadersServe : Nat := 1024

def softResponseLimit : Nat := 2 * 1024 * 1024

/-- The zero hash is `none`. -/
structure GetBlockHeadersPacket (κ : Type) where
  hash : Option κ
  number : UInt64
  amount : UInt64
  skip : UInt64
  reverse : Bool

/-- How many blocks are frozen, and what `AncientRange` gives of their headers. -/
structure AncientHeaders (H : Type) where
  limit : UInt64
  range : UInt64 → Nat → UInt64 → Option (List H)

section
variable {H κ : Type} [DecidableEq κ] (v : HeaderFields H κ) (s : HeaderChain H κ) (a : AncientHeaders H)
  (q : GetBlockHeadersPacket κ)

def HeaderChain.getHeaderByHash (hash : κ) : Option H × HeaderChain H κ :=
  match s.getBlockNumber hash with
  | (none, s) => (none, s)
  | (some number, s) => s.getHeader hash number

def HeaderChain.getHeaderByNumber (number : UInt64) : Option H × HeaderChain H κ :=
  match s.getCanonicalHash number with
  | none => (none, s)
  | some hash => s.getHeader hash number

/-- The live headers from a hash down, with the count and the number that are left. -/
def HeaderDb.liveHeaders (db : HeaderDb H κ) (limit : UInt64) : Nat → Option κ → UInt64 → List H × Nat × UInt64
  | 0, _, i => ([], 0, i)
  | count + 1, hash, i =>
    match if limit ≤ i then hash.bind fun hash => db.headers.lookup (i, hash) else none with
    | none => ([], count + 1, i)
    | some h =>
      let (rest, left) := liveHeaders db limit count (v.parentHash h) (i - 1)
      (h :: rest, left)

def HeaderDb.readHeaderRange (db : HeaderDb H κ) (number : UInt64) (count : Nat) : List H :=
  if count = 0 then []
  else
    let count := if number.toNat < count - 1 then number.toNat + 1 else count
    let (live, left, i) := db.liveHeaders v a.limit count (db.canonical.lookup number) number
    match if left = 0 then none else a.range (i + 1 - .ofNat left) left (.ofNat (left * 700)) with
    | none => live
    | some data => if data.length = left then live ++ data.reverse else live

namespace HeaderChain

/-- The headers from a hash down that are in the cache. -/
def cachedHeaders : Nat → κ → UInt64 → HeaderChain H κ → (List H × Nat × UInt64) × HeaderChain H κ
  | 0, _, number, s => (([], 0, number), s)
  | count + 1, hash, number, s =>
    match s.headerCache.get hash with
    | (none, _) => (([], count + 1, number), s)
    | (some h, cache) =>
      let ((rest, left), s) := cachedHeaders count (v.parentHash h) (number - 1) { s with headerCache := cache }
      ((h :: rest, left), s)

/-- The end of `GetHeadersFrom`, from a number that is not in the future. -/
def headersFrom (number count : UInt64) : List H × HeaderChain H κ :=
  match s.getCanonicalHash number with
  | none => ([], s)
  | some hash =>
    let ((headers, left, number), s) := cachedHeaders v count.toNat hash number s
    (headers ++ s.db.readHeaderRange v a number left, s)

def getHeadersFrom (number count : UInt64) : List H × HeaderChain H κ :=
  let current := v.number s.currentHeader
  if current < number then
    if number - current < count then s.headersFrom v a current (count - (number - current)) else ([], s)
  else s.headersFrom v a number count

/-- The loop towards the genesis block. -/
def parents : Nat → H → HeaderChain H κ → List H × HeaderChain H κ
  | 0, _, s => ([], s)
  | n + 1, header, s =>
    match s.getHeaderByHash (v.parentHash header) with
    | (none, s) => ([], s)
    | (some header, s) =>
      let (rest, s) := parents n header s
      (header :: rest, s)

def serviceContiguousBlockHeaderQuery : List H × HeaderChain H κ :=
  let count := if .ofNat maxHeadersServe < q.amount then .ofNat maxHeadersServe else q.amount
  match q.hash with
  | none =>
    let (headers, s) := s.getHeadersFrom v a (if q.reverse then q.number else q.number + count - 1) count
    (if q.reverse then headers else headers.reverse, s)
  | some hash =>
    match s.getHeaderByHash hash with
    | (none, s) => ([], s)
    | (some header, s) =>
      let (rest, s) :=
        if q.reverse then parents v (count.toNat - 1) header s
        else if s.getCanonicalHash (v.number header) ≠ some hash then ([], s)
        else
          let (descendants, s) := s.getHeadersFrom v a (v.number header + count - 1) (count - 1)
          (descendants.reverse, s)
      (header :: rest, s)

/-- The origin of the next header, or none if that is `unknown`. -/
def advance (header : H) (max : Nat) : Option (Option κ × UInt64) × Nat × HeaderChain H κ :=
  match q.hash, q.reverse with
  | some hash, true =>
    if q.skip + 1 = 0 then (none, max, s)
    else
      let (next, max, s) := s.getAncestor v hash q.number (q.skip + 1).toNat max
      (next.map fun x => (some x.1, x.2), max, s)
  | some hash, false =>
    let next := v.number header + q.skip + 1
    if next ≤ v.number header then (none, max, s)
    else
      match s.getHeaderByNumber next with
      | (none, s) => (none, max, s)
      | (some header, s) =>
        let (old, max, s) := s.getAncestor v (v.hash header) next (q.skip + 1).toNat max
        (if old.map (·.1) = some hash then some (some (v.hash header), next) else none, max, s)
  | none, true => (if q.skip + 1 ≤ q.number then some (none, q.number - (q.skip + 1)) else none, max, s)
  | none, false => (some (none, q.number + (q.skip + 1)), max, s)

/-- The loop, with the lookups it may still make and the headers and bytes it has. -/
def nonContiguousLoop (size : H → Nat) : Nat → GetBlockHeadersPacket κ → Bool → Nat → Nat → Nat → HeaderChain H κ →
    List H × HeaderChain H κ
  | 0, _, _, _, _, _, s => ([], s)
  | lookups + 1, q, first, max, len, bytes, s =>
    -- an amount of 2^63 or more is negative as an `int`
    if len < q.amount.toNat ∧ q.amount.toNat < 2 ^ 63 ∧ bytes < softResponseLimit ∧ len < maxHeadersServe then
      let (origin, s) :=
        match q.hash with
        | some hash => if first then s.getHeaderByHash hash else s.getHeader hash q.number
        | none => s.getHeaderByNumber q.number
      match origin with
      | none => ([], s)
      | some header =>
        let number := if first && q.hash.isSome then v.number header else q.number
        match s.advance v { q with number := number } header max with
        | (none, _, s) => ([header], s)
        | (some (hash, number), max, s) =>
          let q := { q with hash := hash, number := number }
          let (rest, s) := nonContiguousLoop size lookups q false max (len + 1) (bytes + size header) s
          (header :: rest, s)
    else ([], s)

def serviceNonContiguousBlockHeaderQuery (size : H → Nat) : List H × HeaderChain H κ :=
  nonContiguousLoop v size (2 * maxHeadersServe) q true 100 0 0 s

def serviceGetBlockHeadersQuery (size : H → Nat) : List H × HeaderChain H κ :=
  if q.skip = 0 then s.serviceContiguousBlockHeaderQuery v a q else s.serviceNonContiguousBlockHeaderQuery v q size

end HeaderChain

variable {v s a q}

lemma length_liveHeaders (db : HeaderDb H κ) (limit : UInt64) (count : Nat) (hash : Option κ) (i : UInt64) :
    (db.liveHeaders v limit count hash i).1.length + (db.liveHeaders v limit count hash i).2.1 = count := by
  induction count generalizing hash i with
  | zero => rfl
  | succ count ih =>
    rw [HeaderDb.liveHeaders]
    split
    · exact Nat.zero_add _
    · exact (Nat.succ_add _ _).trans (congrArg Nat.succ (ih _ _))

lemma length_readHeaderRange (db : HeaderDb H κ) (number : UInt64) (count : Nat) :
    (db.readHeaderRange v a number count).length ≤ count := by
  unfold HeaderDb.readHeaderRange
  split
  · exact Nat.zero_le _
  have hle : (if number.toNat < count - 1 then number.toNat + 1 else count) ≤ count := by split <;> omega
  refine Nat.le_trans ?_ hle
  dsimp only
  generalize (if number.toNat < count - 1 then number.toNat + 1 else count) = n
  have hsum := length_liveHeaders (v := v) db a.limit n (db.canonical.lookup number) number
  split
  · omega
  · split
    next hdata => rw [length_append, length_reverse, hdata, hsum]
    · omega

lemma length_cachedHeaders (count : Nat) (hash : κ) (number : UInt64) (s : HeaderChain H κ) :
    (cachedHeaders v count hash number s).1.1.length + (cachedHeaders v count hash number s).1.2.1 = count := by
  induction count generalizing hash number s with
  | zero => rfl
  | succ count ih =>
    rw [cachedHeaders]
    split
    · exact Nat.zero_add _
    · exact (Nat.succ_add _ _).trans (congrArg Nat.succ (ih _ _ _))

lemma length_headersFrom (number count : UInt64) : (s.headersFrom v a number count).1.length ≤ count.toNat := by
  unfold headersFrom
  split
  · exact Nat.zero_le _
  next hash _ =>
    have hsum := length_cachedHeaders (v := v) count.toNat hash number s
    rw [length_append]
    exact (Nat.add_le_add_left (length_readHeaderRange _ _ _) _).trans_eq hsum

lemma length_getHeadersFrom (number count : UInt64) : (s.getHeadersFrom v a number count).1.length ≤ count.toNat := by
  unfold getHeadersFrom
  dsimp only
  split
  · split
    next hmore =>
      refine (length_headersFrom _ _).trans ?_
      rw [UInt64.toNat_sub_of_le _ _ (UInt64.le_of_lt hmore)]
      exact Nat.sub_le _ _
    · exact Nat.zero_le _
  · exact length_headersFrom number count

lemma length_parents (n : Nat) (header : H) (s : HeaderChain H κ) : (parents v n header s).1.length ≤ n := by
  induction n generalizing header s with
  | zero => exact Nat.le_refl _
  | succ n ih =>
    rw [parents]
    split
    · exact Nat.zero_le _
    · exact Nat.succ_le_succ (ih _ _)

lemma length_nonContiguousLoop (size : H → Nat) (lookups : Nat) (first : Bool) (max len bytes : Nat)
    (hlen : len ≤ min q.amount.toNat maxHeadersServe) :
    len + (nonContiguousLoop v size lookups q first max len bytes s).1.length ≤ min q.amount.toNat maxHeadersServe := by
  induction lookups generalizing q first max len bytes s with
  | zero => exact hlen
  | succ lookups ih =>
    rw [nonContiguousLoop]
    split
    next hmore =>
      have hnext : len + 1 ≤ min q.amount.toNat maxHeadersServe := Nat.le_min.2 ⟨hmore.1, hmore.2.2.2⟩
      dsimp only
      split
      · exact hlen
      · split
        · exact hnext
        · dsimp only
          rw [length_cons, ← Nat.add_assoc, Nat.add_right_comm]
          exact ih _ _ _ _ hnext
    · exact hlen

lemma length_serviceContiguous (h : q.amount = 0 → ∀ hash, q.hash = some hash → (s.getHeaderByHash hash).1 = none) :
    (s.serviceContiguousBlockHeaderQuery v a q).1.length ≤ min q.amount.toNat maxHeadersServe := by
  unfold serviceContiguousBlockHeaderQuery
  have hmin : (if .ofNat maxHeadersServe < q.amount then .ofNat maxHeadersServe else q.amount).toNat =
      min q.amount.toNat maxHeadersServe := by
    split
    next hlt => exact (Nat.min_eq_right (Nat.le_of_lt (UInt64.lt_iff_toNat_lt.1 hlt))).symm
    next hle => exact (Nat.min_eq_left (UInt64.le_iff_toNat_le.1 (UInt64.not_lt.1 hle))).symm
  rw [← hmin]
  generalize (if .ofNat maxHeadersServe < q.amount then .ofNat maxHeadersServe else q.amount) = count at hmin ⊢
  dsimp only
  split
  · split
    · exact length_getHeadersFrom _ _
    · rw [length_reverse]
      exact length_getHeadersFrom _ _
  next hash hhash =>
    split
    · exact Nat.zero_le _
    next header s' hfound =>
      have hpos : 1 ≤ count.toNat := by
        by_contra hzero
        have hamount : q.amount.toNat = 0 := by
          unfold maxHeadersServe at hmin
          omega
        have hnone := h (UInt64.toNat_inj.1 hamount) hash hhash
        rw [hfound] at hnone
        cases hnone
      refine Nat.add_le_of_le_sub hpos ?_
      split
      · exact length_parents _ _ _
      · split
        · exact Nat.zero_le _
        · rw [length_reverse]
          refine (length_getHeadersFrom _ _).trans_eq ?_
          exact UInt64.toNat_sub_of_le count 1 (UInt64.le_iff_toNat_le.2 hpos)

/-- The answer is bounded, but where no header is asked for from a known hash on. -/
theorem headers_bounded (v : HeaderFields H κ) (s : HeaderChain H κ) (a : AncientHeaders H) (q : GetBlockHeadersPacket κ)
    (size : H → Nat) : (s.serviceGetBlockHeadersQuery v a q size).1.length ≤ min q.amount.toNat maxHeadersServe ↔
      (q.amount = 0 → q.skip = 0 → ∀ hash, q.hash = some hash → (s.getHeaderByHash hash).1 = none) := by
  unfold HeaderChain.serviceGetBlockHeadersQuery
  constructor
  · intro hle hamount hskip hash hhash
    rw [if_pos hskip, hamount] at hle
    unfold HeaderChain.serviceContiguousBlockHeaderQuery at hle
    rcases hfound : s.getHeaderByHash hash with ⟨_ | header, s'⟩
    · rfl
    · simp only [hhash, hfound] at hle
      exact absurd hle (Nat.not_succ_le_zero _)
  · intro h
    split
    next hskip => exact length_serviceContiguous fun hamount => h hamount hskip
    · exact (Nat.zero_add _).symm.trans_le (length_nonContiguousLoop size _ true 100 0 0 (Nat.zero_le _))

end

theorem amount_zero_is_answered :
    ¬((HeaderChain.genesis twoHeaders 0).serviceGetBlockHeadersQuery twoHeaders ⟨0, fun _ _ _ => none⟩
      ⟨some 1, 0, 0, 0, false⟩ fun _ => 0).1.length ≤ min (UInt64.toNat 0) maxHeadersServe := by
  decide

end TurboOctopus.Core
