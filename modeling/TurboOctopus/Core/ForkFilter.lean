import TurboOctopus.Core.ForkId
/-!
# The fork identifier filter

`forkid.NewID`, `newFilter` and the loops of `gatherForks`. A node's filter compares the
checksum a peer announces with the checksums of all beginnings of its own fork list.
-/
namespace TurboOctopus.ForkId

open Lib TurboOctopus.Types Params List UInt64

/-! ## Gathering the forks -/

/-- The inner loop of the sort: the first position is exchanged with every smaller one. -/
def sweep : UInt64 → List UInt64 → UInt64 × List UInt64
  | x, [] => (x, [])
  | x, y :: l => if x > y then ((sweep y l).1, x :: (sweep y l).2) else ((sweep x l).1, y :: (sweep x l).2)

/-- The outer loop; `fuel` is the number of positions. -/
def exchangeSort : Nat → List UInt64 → List UInt64
  | fuel + 1, x :: l => (sweep x l).1 :: exchangeSort fuel (sweep x l).2
  | _, l => l

/-- The second loop, from the position of `x` on. -/
def dropRepeated (x : UInt64) : List UInt64 → List UInt64
  | [] => [x]
  | y :: l => if y = x then dropRepeated x l else x :: dropRepeated y l

/-- The fork numbers in the order of the fields. -/
def configured (c : ChainConfig) : List UInt64 := (forkBlocks c).filterMap fun b => b.map UInt64.ofNat

/-- `gatherForks` as the source computes it. -/
def gatherForksLoops (c : ChainConfig) : List UInt64 :=
  match exchangeSort (configured c).length (configured c) with
  | [] => []
  | x :: l =>
    match dropRepeated x l with
    | 0 :: forks => forks
    | forks => forks

lemma sweep_spec (x : UInt64) (l : List UInt64) :
    ((sweep x l).1 :: (sweep x l).2).Perm (x :: l) ∧ ∀ y ∈ (sweep x l).2, (sweep x l).1.toNat ≤ y.toNat := by
  induction l generalizing x with
  | nil => simp [sweep]
  | cons y l ih =>
    unfold sweep
    split
    · rename_i hlt
      obtain ⟨hperm, hle⟩ := ih y
      refine ⟨?_, fun z hz => ?_⟩
      · exact (List.Perm.swap _ _ _).trans (hperm.cons x)
      · rcases mem_cons.1 hz with rfl | hz
        · -- What comes out is at most `y`, which is below `z`.
          have hy : y ∈ (sweep y l).1 :: (sweep y l).2 := hperm.mem_iff.2 mem_cons_self
          have hlt : y.toNat < z.toNat := lt_iff_toNat_lt.1 hlt
          rcases mem_cons.1 hy with hy | hy
          · exact le_of_lt (hy ▸ hlt)
          · exact le_trans (hle y hy) (le_of_lt hlt)
        · exact hle z hz
    · rename_i hge
      obtain ⟨hperm, hle⟩ := ih x
      refine ⟨?_, fun z hz => ?_⟩
      · exact (List.Perm.swap _ _ _).trans ((hperm.cons y).trans (List.Perm.swap _ _ _))
      · rcases mem_cons.1 hz with rfl | hz
        · have hx : x ∈ (sweep x l).1 :: (sweep x l).2 := hperm.mem_iff.2 mem_cons_self
          have hge : x.toNat ≤ z.toNat := not_lt.1 fun h => hge (lt_iff_toNat_lt.2 h)
          rcases mem_cons.1 hx with hx | hx
          · exact hx ▸ hge
          · exact le_trans (hle x hx) hge
        · exact hle z hz

lemma exchangeSort_spec (fuel : Nat) (l : List UInt64) (hfuel : l.length ≤ fuel) :
    (exchangeSort fuel l).Perm l ∧ (exchangeSort fuel l).Pairwise fun a b => a.toNat ≤ b.toNat := by
  induction fuel generalizing l with
  | zero =>
    obtain rfl : l = [] := eq_nil_of_length_eq_zero (Nat.le_zero.1 hfuel)
    exact ⟨.refl _, .nil⟩
  | succ fuel ih =>
    cases l with
    | nil => exact ⟨.refl _, .nil⟩
    | cons x l =>
      obtain ⟨hperm, hle⟩ := sweep_spec x l
      have hlen : (sweep x l).2.length ≤ fuel := by
        have := hperm.length_eq
        simp only [length_cons] at this hfuel
        omega
      obtain ⟨hrest, hsorted⟩ := ih (sweep x l).2 hlen
      exact ⟨(hrest.cons _).trans hperm, hsorted.cons fun y hy => hle y (hrest.mem_iff.1 hy)⟩

lemma dropRepeated_eq (x : UInt64) (l : List UInt64) : dropRepeated x l = List.destutter' (· ≠ ·) x l := by
  induction l generalizing x with
  | nil => rfl
  | cons y l ih =>
    unfold dropRepeated
    split
    · rename_i h
      rw [ih, List.destutter'_cons_neg _ (by simpa using h.symm)]
    · rename_i h
      rw [ih, List.destutter'_cons_pos _ (Ne.symm h)]

lemma gatherForksLoops_eq (c : ChainConfig) : gatherForksLoops c = gatherForks c := by
  obtain ⟨hperm, hsorted⟩ := exchangeSort_spec _ (configured c) (le_refl _)
  have hsame : List.insertionSort (fun a b : UInt64 => a.toNat ≤ b.toNat) (configured c) =
      exchangeSort (configured c).length (configured c) := by
    have htotal : Std.Total fun a b : UInt64 => a.toNat ≤ b.toNat := ⟨fun a b => Nat.le_total _ _⟩
    have htrans : IsTrans UInt64 fun a b => a.toNat ≤ b.toNat := ⟨fun _ _ _ => Nat.le_trans⟩
    refine List.Perm.eq_of_pairwise (fun a b _ _ hab hba => ?_) (pairwise_insertionSort _ _) hsorted
      ((perm_insertionSort _ _).trans hperm.symm)
    exact UInt64.toNat_inj.1 (Nat.le_antisymm hab hba)
  unfold gatherForksLoops gatherForks
  rw [← configured]
  dsimp only
  rw [hsame]
  cases exchangeSort (configured c).length (configured c) with
  | nil => rfl
  | cons x l =>
    have hdrop : dropRepeated x l = (x :: l).destutter (· ≠ ·) := by rw [destutter_cons', dropRepeated_eq]
    -- both drop a leading zero
    exact congrArg (fun forks : List UInt64 => match forks with | 0 :: forks => forks | forks => forks) hdrop

/-- Of an ascending list, the second loop leaves each number once. -/
lemma dropRepeated_spec {x : UInt64} {l : List UInt64} (hsorted : (x :: l).Pairwise fun a b => a.toNat ≤ b.toNat) :
    (dropRepeated x l).Pairwise (· < ·) ∧ (∀ y, y ∈ dropRepeated x l ↔ y ∈ x :: l) ∧ ∀ y ∈ dropRepeated x l, x ≤ y := by
  induction l generalizing x with
  | nil => simp [dropRepeated]
  | cons y l ih =>
    obtain ⟨hx, hrest⟩ := pairwise_cons.1 hsorted
    unfold dropRepeated
    split
    · rename_i hyx
      subst hyx
      obtain ⟨hpw, hmem, hle⟩ := ih hrest
      exact ⟨hpw, fun z => by rw [hmem]; simp, hle⟩
    · rename_i hyx
      obtain ⟨hpw, hmem, hle⟩ := ih hrest
      have hxy : x < y := by
        refine lt_iff_toNat_lt.2 (lt_of_le_of_ne (hx y mem_cons_self) fun h => hyx ?_)
        exact (UInt64.toNat_inj.1 h).symm
      have hlt : ∀ z ∈ dropRepeated y l, x < z := fun z hz => UInt64.lt_of_lt_of_le hxy (hle z hz)
      refine ⟨hpw.cons hlt, fun z => by rw [mem_cons, hmem, ← mem_cons], ?_⟩
      exact forall_mem_cons.2 ⟨UInt64.le_refl _, fun z hz => UInt64.le_of_lt (hlt z hz)⟩

/-- Every fork that is scheduled has a number below the sentry. -/
def SmallForks (c : ChainConfig) : Prop := ∀ n, some n ∈ forkBlocks c → n < 2 ^ 64 - 1

lemma gatherForks_spec (c : ChainConfig) :
    (gatherForks c).Pairwise (· < ·) ∧ ∀ fork, fork ∈ gatherForks c ↔ fork ≠ 0 ∧ ∃ n, some n ∈ forkBlocks c ∧ UInt64.ofNat n = fork := by
  rw [← gatherForksLoops_eq]
  unfold gatherForksLoops
  obtain ⟨hperm, hsorted⟩ := exchangeSort_spec _ (configured c) (le_refl _)
  have hall : ∀ fork, fork ∈ exchangeSort (configured c).length (configured c) ↔ ∃ n, some n ∈ forkBlocks c ∧ UInt64.ofNat n = fork := by
    intro fork
    rw [hperm.mem_iff, configured, mem_filterMap]
    constructor
    · rintro ⟨b, hb, hfork⟩
      obtain ⟨n, rfl, hn⟩ := Option.map_eq_some_iff.1 hfork
      exact ⟨n, hb, hn⟩
    · rintro ⟨n, hn, hfork⟩
      exact ⟨some n, hn, congrArg some hfork⟩
  cases hforks : exchangeSort (configured c).length (configured c) with
  | nil =>
    rw [hforks] at hall
    exact ⟨.nil, fun fork => ⟨nofun, fun h => (by have := (hall fork).2 h.2; cases this)⟩⟩
  | cons x l =>
    rw [hforks] at hsorted hall
    obtain ⟨hpw, hmem, -⟩ := dropRepeated_spec hsorted
    have hmem' := fun fork => (hmem fork).trans (hall fork)
    dsimp only
    split
    · rename_i forks hzero
      rw [hzero] at hpw hmem'
      obtain ⟨hlt, hpw⟩ := pairwise_cons.1 hpw
      refine ⟨hpw, fun fork => ⟨fun h => ⟨?_, (hmem' fork).1 (mem_cons_of_mem _ h)⟩, fun h => ?_⟩⟩
      · have := hlt fork h
        rintro rfl
        exact UInt64.lt_irrefl _ this
      · exact (mem_cons.1 ((hmem' fork).2 h.2)).resolve_left h.1
    · rename_i hzero
      refine ⟨hpw, fun fork => ⟨fun h => ⟨?_, (hmem' fork).1 h⟩, fun h => (hmem' fork).2 h.2⟩⟩
      rintro rfl
      -- Zero can only be the first.
      cases hd : dropRepeated x l with
      | nil =>
        rw [hd] at h
        cases h
      | cons y forks =>
        rw [hd] at h hpw
        rcases mem_cons.1 h with rfl | h
        · exact hzero forks hd
        · exact absurd (lt_iff_toNat_lt.1 ((pairwise_cons.1 hpw).1 0 h)) (Nat.not_lt_zero _)

/-! ## The filter -/

/-- `forkid.ID`. -/
structure ForkID where
  hash : List UInt8
  next : UInt64
deriving DecidableEq

def newID (c : ChainConfig) (genesis : Hash) (head : UInt64) : ForkID :=
  let (hash, next) := sumForks head (checksumIEEE (Hash.bytes genesis)) (gatherForks c)
  ⟨checksumToBytes hash, next⟩

inductive FilterErr
  | remoteStale
  | localIncompatibleOrStale
deriving DecidableEq

/-- The body of the loop at the first fork that is not passed: the four rules. -/
def filterAt (forks : List UInt64) (sums : List (List UInt8)) (head : UInt64) (id : ForkID) (i : Nat) : Option FilterErr :=
  if sums[i]? = some id.hash then
    if 0 < id.next ∧ id.next ≤ head then some .localIncompatibleOrStale else none
  else
    match (List.range i).find? fun j => sums[j]? = some id.hash with
    | some j => if forks[j]? ≠ some id.next then some .remoteStale else none
    | none => if id.hash ∈ sums.drop (i + 1) then none else some .localIncompatibleOrStale

/-- The loop over the forks that are left, from index `i` on. -/
def filterLoop (forks : List UInt64) (sums : List (List UInt8)) (head : UInt64) (id : ForkID) : Nat → List UInt64 → Option FilterErr
  | _, [] => none
  | i, fork :: rest => if fork ≤ head then filterLoop forks sums head id (i + 1) rest else filterAt forks sums head id i

/-- `math.MaxUint64`. -/
def maxUint64 : UInt64 := 0xffffffffffffffff

/-- `none` where the filter accepts. -/
def newFilter (c : ChainConfig) (genesis : Hash) (head : UInt64) (id : ForkID) : Option FilterErr :=
  let forks := gatherForks c
  let sums := (forks.scanl checksumUpdate (checksumIEEE (Hash.bytes genesis))).map checksumToBytes
  let forks := forks ++ [maxUint64]
  filterLoop forks sums head id 0 forks

/-! ## What the filter decides -/

/-- The checksum of a beginning of the fork list. -/
def sum (genesis : Hash) (forks : List UInt64) : List UInt8 :=
  checksumToBytes (forks.foldl checksumUpdate (checksumIEEE (Hash.bytes genesis)))

/-- The forks that a head has passed. -/
def passed (head : UInt64) (forks : List UInt64) : List UInt64 := forks.takeWhile fun fork => decide (fork ≤ head)

variable {c c' : ChainConfig} {genesis : Hash} {head here there f : UInt64} {id : ForkID} {forks : List UInt64} {i j k : Nat}

lemma take_passed (head : UInt64) (forks : List UInt64) : forks.take (passed head forks).length = passed head forks :=
  (prefix_iff_eq_take.1 ( takeWhile_prefix _)).symm

lemma length_passed_le (head : UInt64) (forks : List UInt64) : (passed head forks).length ≤ forks.length :=
  ( takeWhile_prefix _).length_le

/-- Behind the passed forks is one that is not passed, or nothing. -/
lemma not_passed (h : forks[(passed head forks).length]? = some f) : ¬ f ≤ head := by
  induction forks with
  | nil => simp [passed] at h
  | cons x l ih =>
    by_cases hx : x ≤ head
    · simp only [passed, takeWhile_cons, hx, decide_true, if_true, length_cons, getElem?_cons_succ] at h
      exact ih h
    · simp only [passed, takeWhile_cons, hx, decide_false, Bool.false_eq_true, if_false, length_nil, getElem?_cons_zero,
        Option.some.injEq] at h
      exact h ▸ hx

lemma le_length_passed (hk : k ≤ forks.length) (h : ∀ x ∈ forks.take k, x ≤ head) : k ≤ (passed head forks).length := by
  by_contra hlt
  have hlt := not_le.1 hlt
  obtain ⟨x, hx⟩ : ∃ x, forks[(passed head forks).length]? = some x :=
    ⟨_, getElem?_eq_getElem (lt_of_lt_of_le hlt hk)⟩
  refine not_passed hx (h x ?_)
  rw [mem_iff_getElem?]
  exact ⟨(passed head forks).length, by rw [getElem?_take_of_lt hlt, hx]⟩

lemma sumForks_eq (head : UInt64) (hash : UInt32) (forks : List UInt64) :
    sumForks head hash forks = ((passed head forks).foldl checksumUpdate hash, (forks[(passed head forks).length]?).getD 0) := by
  induction forks generalizing hash with
  | nil => rfl
  | cons x l ih =>
    unfold sumForks
    by_cases hx : x ≤ head
    · rw [if_pos hx, ih]
      simp [passed, hx]
    · rw [if_neg hx]
      simp [passed, hx]

lemma newID_eq (c : ChainConfig) (genesis : Hash) (head : UInt64) : newID c genesis head =
      ⟨sum genesis (passed head (gatherForks c)), ((gatherForks c)[(passed head (gatherForks c)).length]?).getD 0⟩ := by
  simp only [newID, sumForks_eq]
  rfl

variable {all : List UInt64}

lemma filterLoop_eq {sums : List (List UInt8)} (hhead : head ≠ maxUint64) (l : List UInt64) (i : Nat) :
    filterLoop all sums head id i (l ++ [maxUint64]) = filterAt all sums head id (i + (passed head l).length) := by
  induction l generalizing i with
  | nil =>
    have hmax : ¬ maxUint64 ≤ head := by
      intro h
      refine hhead (UInt64.toNat_inj.1 (Nat.le_antisymm ?_ (le_iff_toNat_le.1 h)))
      exact Nat.le_of_lt_succ (UInt64.toNat_lt head)
    simp [filterLoop, passed, hmax]
  | cons x l ih =>
    simp only [cons_append, filterLoop]
    by_cases hx : x ≤ head
    · rw [if_pos hx, ih]
      simp only [passed, takeWhile_cons, hx, decide_true, if_true, length_cons]
      congr 1
      omega
    · rw [if_neg hx]
      simp [passed, hx]

lemma filterLoop_max {sums : List (List UInt8)} (l : List UInt64) (i : Nat) :
    filterLoop all sums maxUint64 id i l = none := by
  induction l generalizing i with
  | nil => rfl
  | cons x l ih =>
    have hx : x ≤ maxUint64 := le_iff_toNat_le.2 (Nat.le_of_lt_succ (UInt64.toNat_lt x))
    rw [filterLoop, if_pos hx, ih]

/-- The checksums of the list's beginnings. -/
def sums (genesis : Hash) (forks : List UInt64) : List (List UInt8) :=
  (forks.scanl checksumUpdate (checksumIEEE (Hash.bytes genesis))).map checksumToBytes

lemma getElem?_sums : (sums genesis forks)[i]? = if i ≤ forks.length then some (sum genesis (forks.take i)) else none := by
  rw [sums, getElem?_map, getElem?_scanl]
  split <;> rfl

lemma newFilter_eq (hhead : head ≠ maxUint64) : newFilter c genesis head id =
      filterAt (gatherForks c ++ [maxUint64]) (sums genesis (gatherForks c)) head id (passed head (gatherForks c)).length := by
  rw [← Nat.zero_add (passed head (gatherForks c)).length]
  exact filterLoop_eq hhead (gatherForks c) 0

/-- The checksums of different beginnings of the two fork lists are different. -/
def Apart (genesis : Hash) (forks forks' : List UInt64) : Prop :=
  ∀ l l', (l <+: forks ∨ l <+: forks') → (l' <+: forks ∨ l' <+: forks') → sum genesis l = sum genesis l' → l = l'

/-- A beginning has its checksum at its length and nowhere else. -/
lemma sums_unique (h : Apart genesis forks forks) (hj : j ≤ forks.length) (hi : (sums genesis forks)[i]? = some (sum genesis (forks.take j))) :
    i = j := by
  rw [getElem?_sums] at hi
  split at hi
  · rename_i hle
    have heq := h _ _ (.inl ( take_prefix _ _)) (.inl ( take_prefix _ _)) (Option.some.inj hi)
    have := congrArg List.length heq
    simp only [length_take] at this
    omega
  · cases hi

lemma find_sums (h : Apart genesis forks forks) (hj : j ≤ forks.length) (hji : j < i) :
    ((List.range i).find? fun m => (sums genesis forks)[m]? = some (sum genesis (forks.take j))) = some j := by
  rw [find?_range_eq_some]
  refine ⟨?_, mem_range.2 hji, fun m hm => ?_⟩
  · rw [getElem?_sums, if_pos hj]
    exact decide_eq_true rfl
  · simp only [Bool.not_eq_true', decide_eq_false_iff_not]
    exact fun hc => Nat.ne_of_lt hm (sums_unique h hj hc)

lemma filterAt_behind {next : UInt64} (h : Apart genesis forks forks) (hj : j ≤ forks.length) (hji : j < i) :
    filterAt all (sums genesis forks) head ⟨sum genesis (forks.take j), next⟩ i = if all[j]? ≠ some next then some .remoteStale else none := by
  unfold filterAt
  rw [if_neg fun hc => Nat.ne_of_gt hji (sums_unique h hj hc), find_sums h hj hji]

lemma filterAt_ahead {next : UInt64} (h : Apart genesis forks forks) (hj : j ≤ forks.length) (hij : i < j) :
    filterAt all (sums genesis forks) head ⟨sum genesis (forks.take j), next⟩ i = none := by
  unfold filterAt
  rw [if_neg fun hc => Nat.ne_of_lt hij (sums_unique h hj hc)]
  have hnone : ((List.range i).find? fun m => (sums genesis forks)[m]? = some (sum genesis (forks.take j))) = none := by
    rw [find?_eq_none]
    intro m hm hc
    have := sums_unique h hj (of_decide_eq_true hc)
    have := mem_range.1 hm
    omega
  have hmem : sum genesis (forks.take j) ∈ (sums genesis forks).drop (i + 1) := by
    refine mem_iff_getElem?.2 ⟨j - (i + 1), ?_⟩
    rw [getElem?_drop, Nat.add_sub_of_le hij, getElem?_sums, if_pos hj]
  rw [hnone]
  exact if_pos hmem

lemma filterAt_foreign (h : ∀ j ≤ forks.length, sum genesis (forks.take j) ≠ id.hash) :
    filterAt all (sums genesis forks) head id i = some .localIncompatibleOrStale := by
  have hno : ∀ m : Nat, (sums genesis forks)[m]? ≠ some id.hash := by
    intro m hm
    rw [getElem?_sums] at hm
    split at hm
    · exact h m ‹_› (Option.some.inj hm)
    · cases hm
  unfold filterAt
  rw [if_neg (hno i)]
  have hnone : ((List.range i).find? fun m => (sums genesis forks)[m]? = some id.hash) = none :=
    find?_eq_none.2 fun m _ hc => hno m (of_decide_eq_true hc)
  rw [hnone]
  refine if_neg fun hmem => ?_
  obtain ⟨m, hm⟩ := mem_iff_getElem?.1 hmem
  rw [getElem?_drop] at hm
  exact hno _ hm

lemma filter_same (h : Apart genesis (gatherForks c) (gatherForks c)) (here there : UInt64) :
    newFilter c genesis here (newID c genesis there) = none := by
  by_cases hmax : here = maxUint64
  · rw [hmax]
    exact filterLoop_max _ _
  · have hi := length_passed_le here (gatherForks c)
    have hj := length_passed_le there (gatherForks c)
    rw [newFilter_eq hmax, newID_eq]
    nth_rewrite 1 [← take_passed there (gatherForks c)]
    rcases Nat.lt_trichotomy (passed there (gatherForks c)).length (passed here (gatherForks c)).length with hlt | heq | hgt
    · -- The peer is behind: its next fork is the one that follows here.
      have hnext := getElem?_eq_getElem (lt_of_lt_of_le hlt hi)
      rw [filterAt_behind h hj hlt, getElem?_append_left (lt_of_lt_of_le hlt hi), hnext]
      exact if_neg fun hc => hc rfl
    · unfold filterAt
      rw [heq, getElem?_sums, if_pos hi, if_pos rfl]
      refine if_neg ?_
      rintro ⟨hpos, hle⟩
      cases hnext : (gatherForks c)[(passed here (gatherForks c)).length]? with
      | none =>
        rw [hnext] at hpos
        exact UInt64.lt_irrefl 0 hpos
      | some f =>
        rw [hnext] at hle
        exact not_passed hnext hle
    · exact filterAt_ahead h hj hgt

/-! ## Lists that differ -/

/-- The two lists first differ at index `k`, and `f` is the smaller number there, or the only
one. -/
def Diverge (forks forks' : List UInt64) (k : Nat) (f : UInt64) : Prop :=
  forks.take k = forks'.take k ∧
    ((forks[k]? = some f ∧ ∀ g, forks'[k]? = some g → f < g) ∨ (forks'[k]? = some f ∧ ∀ g, forks[k]? = some g → f < g))

variable {forks' : List UInt64}

lemma Apart.symm (h : Apart genesis forks forks') : Apart genesis forks' forks :=
  fun l l' hl hl' => h l l' hl.symm hl'.symm

lemma Apart.left (h : Apart genesis forks forks') : Apart genesis forks forks :=
  fun l l' hl hl' => h l l' (.inl (hl.elim id id)) (.inl (hl'.elim id id))

/-- Beginnings that contain the difference have different checksums. -/
lemma Apart.ne_of_diverge (h : Apart genesis forks forks') (hne : forks[k]? ≠ forks'[k]?) {m : Nat}
    (hkm : k < m) (hm : m ≤ forks'.length) (j : Nat) : sum genesis (forks.take j) ≠ sum genesis (forks'.take m) := by
  intro hc
  have heq := h _ _ (.inl ( take_prefix _ _)) (.inr ( take_prefix _ _)) hc
  have hlen := congrArg List.length heq
  simp only [length_take] at hlen
  have hk := congrArg (·[k]?) heq
  simp only [getElem?_take_of_lt hkm] at hk
  rw [getElem?_take_of_lt (by omega)] at hk
  exact hne hk

/-- The list of `c` has the smaller number where the two differ. -/
lemma filter_diverged (h : Apart genesis (gatherForks c) (gatherForks c')) (htake : (gatherForks c).take k = (gatherForks c').take k)
    (hf : (gatherForks c)[k]? = some f) (hg : ∀ g, (gatherForks c')[k]? = some g → f < g) (hhere : f ≤ here) (hthere : f ≤ there) :
    (here ≠ maxUint64 → newFilter c genesis here (newID c' genesis there) ≠ none) ∧
      (there ≠ maxUint64 → newFilter c' genesis there (newID c genesis here) ≠ none) := by
  obtain ⟨hk, hfk⟩ := List.getElem?_eq_some_iff.1 hf
  have hsorted := (gatherForks_spec c).1
  have hbelow : ∀ x ∈ (gatherForks c).take k, x < f := by
    intro x hx
    obtain ⟨m, hm⟩ := mem_iff_getElem?.1 hx
    rw [getElem?_take] at hm
    split at hm
    · obtain ⟨hml, rfl⟩ := List.getElem?_eq_some_iff.1 hm
      rw [← hfk]
      exact pairwise_iff_getElem.1 hsorted m k hml hk ‹_›
    · cases hm
  have hk' : k ≤ (gatherForks c').length := by
    have := congrArg List.length htake
    simp only [length_take] at this
    omega
  have hne : (gatherForks c)[k]? ≠ (gatherForks c')[k]? := by
    intro hc
    exact UInt64.lt_irrefl _ (hg f (hc ▸ hf))
  have hahead : k < (passed here (gatherForks c)).length := by
    refine le_length_passed hk ?_
    rw [take_add_one, hf]
    exact forall_mem_append.2
      ⟨fun x hx => UInt64.le_trans (UInt64.le_of_lt (hbelow x hx)) hhere, forall_mem_singleton.2 hhere⟩
  have hreach : k ≤ (passed there (gatherForks c')).length :=
    le_length_passed hk' fun x hx => UInt64.le_trans (UInt64.le_of_lt (hbelow x (htake ▸ hx))) hthere
  refine ⟨fun hmax => ?_, fun hmax => ?_⟩
  · rw [newFilter_eq hmax, newID_eq]
    nth_rewrite 1 [← take_passed there (gatherForks c')]
    rcases Nat.eq_or_lt_of_le hreach with heq | hlt
    · -- The peer is still before the fork and announces another one, or none.
      rw [← heq, ← htake, filterAt_behind h.left (le_of_lt hk) hahead, getElem?_append_left hk, hf, if_pos]
      · simp
      · intro hc
        cases hnext : (gatherForks c')[k]? with
        | none =>
          rw [hnext] at hc
          exact ((gatherForks_spec c).2 f).1 (mem_of_getElem? hf) |>.1 (Option.some.inj hc)
        | some g =>
          rw [hnext] at hc
          exact UInt64.ne_of_lt (hg g hnext) (Option.some.inj hc)
    · rw [filterAt_foreign fun j _ => h.ne_of_diverge hne hlt (length_passed_le there (gatherForks c')) j]
      simp
  · rw [newFilter_eq hmax, newID_eq]
    nth_rewrite 1 [← take_passed here (gatherForks c)]
    rw [filterAt_foreign fun j _ => h.symm.ne_of_diverge hne.symm hahead (length_passed_le here (gatherForks c)) j]
    simp

/-- Nodes with the same forks accept each other at all heads; nodes whose forks differ reject each
other from the first difference on, unless the head is the sentry itself. -/
theorem fork_filter_separates (genesis : Hash) (c c' : ChainConfig) (hc : SmallForks c) (hsums : Apart genesis (gatherForks c) (gatherForks c')) :
    (∀ here there, newFilter c genesis here (newID c genesis there) = none) ∧
      (∀ k f, Diverge (gatherForks c) (gatherForks c') k f → ∀ here there, f ≤ here → f ≤ there →
        (here ≠ maxUint64 → newFilter c genesis here (newID c' genesis there) ≠ none) ∧
          (there ≠ maxUint64 → newFilter c' genesis there (newID c genesis here) ≠ none)) ∧
      gatherForksLoops c = gatherForks c ∧ ((gatherForks c).map UInt64.toNat).Pairwise (· < ·) ∧
      ∀ n, n ∈ (gatherForks c).map UInt64.toNat ↔ n ≠ 0 ∧ some n ∈ forkBlocks c := by
  obtain ⟨hsorted, hmem⟩ := gatherForks_spec c
  refine ⟨filter_same hsums.left, ?_, gatherForksLoops_eq c, ?_, fun n => ?_⟩
  · rintro k f ⟨htake, ⟨hf, hg⟩ | ⟨hf, hg⟩⟩ here there hhere hthere
    · exact filter_diverged hsums htake hf hg hhere hthere
    · exact (filter_diverged hsums.symm htake.symm hf hg hthere hhere).symm
  · exact pairwise_map.2 (hsorted.imp fun h => lt_iff_toNat_lt.1 h)
  · rw [mem_map]
    constructor
    · rintro ⟨fork, hfork, rfl⟩
      obtain ⟨hne, n, hn, rfl⟩ := (hmem fork).1 hfork
      have hsmall := hc n hn
      rw [u64_ofNat (by omega)]
      refine ⟨fun h => hne ?_, hn⟩
      rw [h]
      rfl
    · rintro ⟨hne, hn⟩
      have hsmall := hc n hn
      have htoNat : (UInt64.ofNat n).toNat = n := u64_ofNat (by omega)
      refine ⟨UInt64.ofNat n, (hmem _).2 ⟨fun h => hne ?_, n, hn, rfl⟩, htoNat⟩
      rw [← htoNat, h]
      rfl

/-- A chain with one fork. -/
def oneFork : ChainConfig := { noForks 1 with homesteadBlock := some 1 }

lemma apart_oneFork : Apart 0 (gatherForks oneFork) (gatherForks (noForks 1)) := by
  have hforks : gatherForks oneFork = [1] := by decide +kernel
  have hnone : gatherForks (noForks 1) = [] := by decide +kernel
  have hsum : sum 0 [] ≠ sum 0 [1] := by decide +kernel
  have hcases : ∀ l, l <+: [1] ∨ l <+: [] → l = [] ∨ l = [(1 : UInt64)] := by
    rintro l (hl | hl)
    · rcases l with - | ⟨x, l⟩
      · exact .inl rfl
      · obtain ⟨rfl, hrest⟩ := cons_prefix_cons.1 hl
        rw [prefix_nil.1 hrest]
        exact .inr rfl
    · exact .inl (prefix_nil.1 hl)
  rw [hforks, hnone]
  intro l l' hl hl' heq
  rcases hcases l hl with rfl | rfl <;> rcases hcases l' hl' with rfl | rfl
  · rfl
  · exact absurd heq hsum
  · exact absurd heq.symm hsum
  · rfl

lemma smallForks_oneFork : SmallForks oneFork := by
  intro n hn
  have hall : ∀ b ∈ forkBlocks oneFork, b.all (· < 2 ^ 64 - 1) = true := by decide +kernel
  simpa using hall _ hn

lemma diverge_oneFork : Diverge (gatherForks oneFork) (gatherForks (noForks 1)) 0 1 := by
  refine ⟨rfl, .inl ⟨by decide +kernel, fun g hg => ?_⟩⟩
  rw [show gatherForks (noForks 1) = [] by decide +kernel] at hg
  cases hg

theorem fork_filter_separates_oneFork :
    newFilter oneFork 0 1 (newID oneFork 0 0) = none ∧ newFilter oneFork 0 1 (newID (noForks 1) 0 1) ≠ none := by
  obtain ⟨hsame, hdiff, -⟩ := fork_filter_separates 0 oneFork (noForks 1) smallForks_oneFork apart_oneFork
  exact ⟨hsame 1 0, (hdiff 0 1 diverge_oneFork 1 1 (UInt64.le_refl _) (UInt64.le_refl _)).1 (by decide)⟩

/-- At the last head there is no fork left that is not passed, and the filter accepts. -/
theorem last_head_accepts_diverged :
    SmallForks oneFork ∧ SmallForks (noForks 1) ∧ Apart 0 (gatherForks oneFork) (gatherForks (noForks 1)) ∧
      Diverge (gatherForks oneFork) (gatherForks (noForks 1)) 0 1 ∧ (1 : UInt64) ≤ maxUint64 ∧
      newFilter oneFork 0 maxUint64 (newID (noForks 1) 0 1) = none := by
  refine ⟨smallForks_oneFork, fun n hn => ?_, apart_oneFork, diverge_oneFork, by decide, filterLoop_max _ _⟩
  have hall : ∀ b ∈ forkBlocks (noForks 1), b = none := by decide +kernel
  exact absurd (hall _ hn) (by simp)

end TurboOctopus.ForkId
