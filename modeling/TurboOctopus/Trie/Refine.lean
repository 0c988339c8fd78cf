import TurboOctopus.Trie.Hasher
/-!
# Reading and writing nodes

On a node that loads a tree, `tryGet`, `insert` and `delete` return the lookup in the
tree and nodes that load the tree with the key put in and taken out. The fuel is enough
with two steps for each digit: a hash node is resolved to a node that is none.
-/
namespace TurboOctopus.Trie

open Lib Lib.Patricia Lib.Patricia.Tree TurboOctopus.Types Function List Node

variable {C : Crypto} {db : NodeDb} {top : Bool} {n : Node} {t : HexTree} {key path : List HexDigit}

/-- The steps that a node takes before its key gets shorter. -/
def Node.cost : Node → Nat
  | hash _ => 2
  | _ => 1

lemma Node.cost_pos (n : Node) : 1 ≤ n.cost := by
  cases n <;> simp [cost]

lemma Node.cost_le (n : Node) : n.cost ≤ 2 := by
  cases n <;> simp [cost]

lemma Node.cost_resolved (h : ∀ h', n ≠ .hash h') : n.cost = 1 := by
  cases n with
  | hash h' => exact absurd rfl (h h')
  | _ => rfl

lemma Inner.lookup_nil (ht : Inner t) (hcanonical : t.Canonical) : t.lookup [] = none := by
  cases t with
  | nil => exact ht.elim
  | value v => exact ht.elim
  | short p t => exact lookup_short_nil hcanonical.1
  | full c => exact lookup_full_nil c

lemma Inner.ne_nil (ht : Inner t) : t ≠ .nil := by
  rintro rfl
  exact ht

/-- A node of the database is never at the end of a key. -/
lemma Inner.key_ne_nil (ht : Inner t) (hcanonical : t.Canonical) (hapart : t.Apart key) : key ≠ [] :=
  hcanonical.apart_ne_nil ht.ne_nil (ht.lookup_nil hcanonical) hapart

variable {c : HexDigit → HexTree} {children : HexDigit → Node} {digit : HexDigit} {dirty : Bool} {flags : NodeFlag}
  {fuel : Nat} {h : Hash} {leaf nn rn val : Node} {nkey rest : List HexDigit}
  {result : Except TrieError (Bool × Node)} {t' : HexTree}

lemma loads_update (hchildren : ∀ i, Loads C db false (children i) (c i)) (digit : HexDigit)
    (hn : Loads C db false n t) (i : HexDigit) : Loads C db false (update children digit n i) (update c digit t i) := by
  by_cases hi : i = digit
  · subst hi
    rwa [update_self, update_self]
  · rw [update_of_ne hi, update_of_ne hi]
    exact hchildren i

/-! ## Reading -/

lemma Loads.tryGet (fuel pos : Nat) (hn : Loads C db top n t) (hcanonical : t.Canonical)
    (hpos : pos ≤ key.length) (hapart : t.Apart (key.drop pos)) (hfuel : 2 * (key.length - pos) + n.cost ≤ fuel) :
    ∃ n' didResolve, n.tryGet db fuel key pos = .ok (t.lookup (key.drop pos), n', didResolve) ∧
      Loads C db top n' t := by
  induction fuel generalizing n t top pos with
  | zero =>
    have := n.cost_pos
    omega
  | succ fuel ih =>
    cases hn with
    | empty => exact ⟨.empty, false, by simp [Node.tryGet], .empty top⟩
    | value _ v =>
      refine ⟨.value v, false, ?_, .value top v⟩
      rw [hapart.value]
      rfl
    | @short _ nkey val flags t hval hflags =>
      by_cases hp : nkey <+: key.drop pos
      · -- the key goes on below
        obtain ⟨r, hr⟩ := hp
        have hlen : nkey.length + r.length = key.length - pos := by
          rw [← length_append, hr, length_drop]
        have hdrop : key.drop (pos + nkey.length) = r := by
          rw [← drop_drop, ← hr, drop_left]
        have hnkey : 1 ≤ nkey.length := length_pos_iff.2 hcanonical.1
        rw [← hr] at hapart ⊢
        have hcost : (Node.short nkey val flags).cost = 1 := rfl
        have hle := val.cost_le
        obtain ⟨n', didResolve, hget, hloads⟩ := ih (pos + nkey.length) hval hcanonical.2.2 (by omega)
          (by rw [hdrop]; exact hapart.drop) (by omega)
        rw [hdrop] at hget
        refine ⟨if didResolve then .short nkey n' flags else .short nkey val flags, didResolve, ?_, ?_⟩
        · rw [Node.tryGet, if_neg, hget, lookup_short_append]
          · rfl
          · rintro (hlt | hne)
            · omega
            · rw [← hr, take_left] at hne
              exact hne rfl
        · split
          · exact .short hloads hflags
          · exact .short hval hflags
      · refine ⟨.short nkey val flags, false, ?_, .short hval hflags⟩
        rw [Node.tryGet, if_pos, lookup_short_of_not _ hp]
        right
        intro htake
        exact hp (htake ▸ take_prefix _ _)
    | @full _ children flags c hchildren hflags =>
      have hne : key.drop pos ≠ [] := Inner.key_ne_nil (t := .full c) trivial hcanonical hapart
      obtain ⟨digit, rest, hkey⟩ := exists_cons_of_ne_nil hne
      have hlen : rest.length + 1 = key.length - pos := by
        rw [← length_cons, ← hkey, length_drop]
      have hget? : key[pos]? = some digit := by
        rw [← head?_drop, hkey, head?_cons]
      have hdrop : key.drop (pos + 1) = rest := by
        rw [← drop_drop, hkey, drop_one, tail_cons]
      have hcost : (Node.full children flags).cost = 1 := rfl
      have hle := (children digit).cost_le
      rw [hkey] at hapart ⊢
      obtain ⟨n', didResolve, hget, hloads⟩ := ih (pos + 1) (hchildren digit) (hcanonical.1 digit) (by omega)
        (by rw [hdrop]; exact hapart.tail) (by omega)
      rw [hdrop] at hget
      refine ⟨if didResolve then .full (update children digit n') flags else .full children flags, didResolve, ?_, ?_⟩
      · rw [Node.tryGet, hget?]
        dsimp only
        rw [hget, lookup_full_cons]
        rfl
      · split
        · have hupdate := loads_update hchildren digit hloads
          rw [update_eq_self] at hupdate
          exact .full hupdate hflags
        · exact .full hchildren hflags
    | @hash _ h rn t hdb hrn hnode ht hh hlong =>
      have hcost : (Node.hash h).cost = 2 := rfl
      have hcost' := cost_resolved hnode
      obtain ⟨n', didResolve, hget, hloads⟩ := ih pos (hrn.relax hlong) hcanonical hpos hapart (by omega)
      refine ⟨n', true, ?_, hloads⟩
      rw [Node.tryGet, Trie.resolveHash, hdb]
      dsimp only [bind, Except.bind]
      rw [hget]
      rfl

/-! ## Inserting -/

/-- What a change returns: a node for the new tree, and whether it is another one. A new
node is there itself, not by its hash. -/
def Changes (C : Crypto) (db : NodeDb) (top : Bool) (t t' : HexTree) (result : Except TrieError (Bool × Node)) : Prop :=
  ∃ dirty n', result = .ok (dirty, n') ∧ Loads C db top n' t' ∧ (dirty = false → t' = t) ∧
    (dirty = true → ∀ h, n' ≠ .hash h)

lemma changes_of
    (hresult : result = .ok (dirty, if dirty then nn else n)) (hn : Loads C db top n t) (hnn : Loads C db top nn t')
    (hclean : dirty = false → t' = t) (hnew : dirty = true → ∀ h, nn ≠ .hash h) : Changes C db top t t' result := by
  cases dirty with
  | true => exact ⟨true, nn, hresult, hnn, hclean, hnew⟩
  | false =>
    refine ⟨false, n, hresult, ?_, hclean, by simp⟩
    rw [hclean rfl]
    exact hn

lemma changes_new (hresult : result = .ok (true, nn)) (hnn : Loads C db top nn t') (hnew : ∀ h, nn ≠ .hash h) :
    Changes C db top t t' result := ⟨true, nn, hresult, hnn, by simp, fun _ => hnew⟩

lemma changes_not (hresult : result = .ok (false, n))
    (hn : Loads C db top n t) : Changes C db top t t result := ⟨false, n, hresult, hn, fun _ => rfl, by simp⟩

lemma insert_empty (fuel : Nat) (path key : List HexDigit) (leaf : Node) :
    insert db (fuel + 1) .empty path key leaf = .ok (true, if key = [] then leaf else .short key leaf newFlag) := by
  cases key with
  | nil => rfl
  | cons digit rest => simp [Node.insert]

lemma Loads.extend (hn : Loads C db false n t) (key : List HexDigit) :
    Loads C db false (if key = [] then n else .short key n newFlag) (extend key t) := by
  rw [Tree.extend]
  split
  · exact hn
  · exact .short hn (cached_newFlag _ _)

lemma insert_run (hnkey : nkey ≠ []) (hinsert : val.insert db fuel (path ++ nkey) rest leaf = .ok (dirty, nn)) :
    (short nkey val flags).insert db (fuel + 1) path (nkey ++ rest) leaf =
      .ok (dirty, if dirty then .short nkey nn newFlag else .short nkey val flags) := by
  obtain ⟨digit, nrest, rfl⟩ := exists_cons_of_ne_nil hnkey
  rw [cons_append, Node.insert]
  rw [← cons_append, prefixLen_append, if_pos rfl, take_left, drop_left, hinsert]
  cases dirty <;> rfl

lemma insert_split {q nrest krest : List HexDigit} {old new : HexDigit} (hne : new ≠ old) (val leaf : Node)
    (flags : NodeFlag) (path : List HexDigit) :
    (short (q ++ old :: nrest) val flags).insert db (fuel + 2) path (q ++ new :: krest) leaf =
      let branch := full (update (update (fun _ => .empty) old (if nrest = [] then val else .short nrest val newFlag))
        new (if krest = [] then leaf else .short krest leaf newFlag)) newFlag
      .ok (true, if q = [] then branch else .short q branch newFlag) := by
  have hlen : prefixLen (q ++ new :: krest) (q ++ old :: nrest) = q.length := prefixLen_apart q hne
  obtain ⟨digit, rest, hkey⟩ := exists_cons_of_ne_nil (show q ++ new :: krest ≠ [] by simp)
  rw [hkey, Node.insert]
  rw [← hkey, hlen, if_neg (by simp), drop_left, drop_left]
  dsimp only
  rw [insert_empty, insert_empty, take_left]
  dsimp only [bind, Except.bind, pure, Except.pure]
  simp only [length_eq_zero_iff]

lemma insert_child (hinsert : (children digit).insert db fuel (path ++ [digit]) rest leaf = .ok (dirty, nn)) :
    (full children flags).insert db (fuel + 1) path (digit :: rest) leaf =
      .ok (dirty, if dirty then .full (update children digit nn) newFlag else .full children flags) := by
  rw [Node.insert]
  rw [hinsert]
  cases dirty <;> rfl

lemma insert_hash (hkey : key ≠ [])
    (hdb : resolveHash db h path = .ok rn) (hinsert : rn.insert db fuel path key leaf = .ok (dirty, nn)) :
    (Node.hash h).insert db (fuel + 1) path key leaf = .ok (dirty, if dirty then nn else rn) := by
  obtain ⟨digit, rest, rfl⟩ := exists_cons_of_ne_nil hkey
  rw [Node.insert]
  rw [hdb]
  dsimp only [bind, Except.bind]
  rw [hinsert]
  cases dirty <;> rfl

lemma Loads.insert (fuel : Nat) (path : List HexDigit) (v : List UInt8) (hn : Loads C db top n t)
    (hcanonical : t.Canonical) (hapart : t.Apart key) (hfuel : 2 * key.length + n.cost ≤ fuel) :
    Changes C db top t (t.insert key v) (n.insert db fuel path key (.value v)) := by
  induction fuel generalizing n t top path key with
  | zero =>
    have := n.cost_pos
    omega
  | succ fuel ih =>
    cases hn with
    | empty =>
      refine changes_new (insert_empty fuel path key _) ?_ ?_
      · rw [Tree.insert, Tree.extend]
        split
        · exact .value top v
        · exact .short (.value false v) (cached_newFlag _ _)
      · intro h
        split <;> simp
    | value _ w =>
      have hkey := hapart.value
      subst hkey
      refine ⟨w != v, .value v, rfl, .value top v, ?_, by simp⟩
      intro hdirty
      rw [bne_eq_false_iff_eq] at hdirty
      rw [hdirty]
      rfl
    | @short _ nkey val flags t hval hflags =>
      have hcost : (Node.short nkey val flags).cost = 1 := rfl
      by_cases hp : nkey <+: key
      · obtain ⟨r, rfl⟩ := hp
        have hnkey : 1 ≤ nkey.length := length_pos_iff.2 hcanonical.1
        have hle := val.cost_le
        rw [length_append] at hfuel
        obtain ⟨dirty, nn, hinsert, hloads, hclean, _⟩ := ih (path ++ nkey) hval hcanonical.2.2 hapart.drop (by omega)
        rw [Tree.insert, if_pos (prefix_append _ _), drop_left]
        refine changes_of (insert_run hcanonical.1 hinsert) (.short hval hflags) (.short hloads (cached_newFlag _ _))
          ?_ (by simp)
        intro hdirty
        rw [hclean hdirty]
      · -- the key parts from the run at a digit
        obtain ⟨q, new, old, krest, nrest, rfl, rfl, hne, hlen⟩ := prefixLen_spec hp (hcanonical.apart_run hapart hp)
        obtain ⟨fuel, rfl⟩ : ∃ m, fuel = m + 1 := ⟨fuel - 1, by simp at hfuel; omega⟩
        refine changes_new (insert_split hne val _ flags path) ?_ (by intro h; split <;> simp)
        have hempty : ∀ i : HexDigit, Loads C db false .empty .nil := fun _ => .empty false
        have hbranch := loads_update (loads_update hempty old (hval.extend nrest)) new ((Loads.value false v).extend krest)
        rw [Tree.insert, if_neg hp, split_eq t v hlen, Tree.extend]
        split
        · exact .full hbranch (cached_newFlag _ _)
        · exact .short (.full hbranch (cached_newFlag _ _)) (cached_newFlag _ _)
    | @full _ children flags c hchildren hflags =>
      have hcost : (Node.full children flags).cost = 1 := rfl
      have hne : key ≠ [] := Inner.key_ne_nil (t := .full c) trivial hcanonical hapart
      obtain ⟨digit, rest, rfl⟩ := exists_cons_of_ne_nil hne
      have hle := (children digit).cost_le
      rw [length_cons] at hfuel
      obtain ⟨dirty, nn, hinsert, hloads, hclean, _⟩ :=
        ih (path ++ [digit]) (hchildren digit) (hcanonical.1 digit) hapart.tail (by omega)
      rw [Tree.insert]
      refine changes_of (insert_child hinsert) (.full hchildren hflags)
        (.full (loads_update hchildren digit hloads) (cached_newFlag _ _)) ?_ (by simp)
      intro hdirty
      rw [hclean hdirty, update_eq_self]
    | @hash _ h rn t hdb hrn hnode ht hh hlong =>
      have hcost : (Node.hash h).cost = 2 := rfl
      have hcost' := cost_resolved hnode
      have hresolve : Trie.resolveHash db h path = .ok rn := by rw [Trie.resolveHash, hdb]
      obtain ⟨dirty, nn, hinsert, hloads, hclean, hnew⟩ := ih path (hrn.relax hlong) hcanonical hapart (by omega)
      exact changes_of (insert_hash (ht.key_ne_nil hcanonical hapart) hresolve hinsert) (hrn.relax hlong) hloads hclean hnew

/-! ## Deleting -/

/-- The short node with a digit or a run put before a node. -/
def prepend (nkey : List HexDigit) : Node → Node
  | .short ckey cval _ => .short (nkey ++ ckey) cval newFlag
  | child => .short nkey child newFlag

lemma prepend_ne_hash (nkey : List HexDigit) (n : Node) (h : Hash) : prepend nkey n ≠ .hash h := by
  cases n <;> simp [prepend]

lemma Loads.prepend (hn : Loads C db false n t) (hhash : ∀ h, n ≠ .hash h) (hnil : t ≠ .nil)
    (hnkey : nkey ≠ []) : Loads C db top (prepend nkey n) (join nkey t) := by
  cases hn with
  | empty => exact absurd rfl hnil
  | value _ v =>
    rw [join_value hnkey]
    exact .short (.value false v) (cached_newFlag _ _)
  | short hval _ => exact .short hval (cached_newFlag _ _)
  | full hchildren hflags =>
    rw [join_full hnkey]
    exact .short (.full hchildren hflags) (cached_newFlag _ _)
  | hash => exact absurd rfl (hhash _)

section Remaining
variable {children : HexDigit → Node}

variable {i : HexDigit} {l : List HexDigit}

lemma remainingChild_none (h : ∀ i ∈ l, (children i).isEmpty = true) (pos : Int) :
    remainingChild children l pos = pos := by
  induction l generalizing pos with
  | nil => rfl
  | cons i l ih =>
    rw [remainingChild, if_pos (h i mem_cons_self)]
    exact ih (fun j hj => h j (mem_cons_of_mem i hj)) pos

lemma remainingChild_more (hi : i ∈ l) (h : (children i).isEmpty = false) {pos : Int}
    (hpos : 0 ≤ pos) : remainingChild children l pos = -2 := by
  induction l with
  | nil => simp at hi
  | cons j l ih =>
    rw [remainingChild]
    split
    · next hj =>
      rcases mem_cons.1 hi with rfl | hi
      · rw [h] at hj
        cases hj
      · exact ih hi
    · rw [if_neg (by omega)]

lemma remainingChild_one (hl : l.Nodup) (hi : i ∈ l) (h : (children i).isEmpty = false)
    (hothers : ∀ j, j ≠ i → (children j).isEmpty = true) : remainingChild children l (-1) = i.val := by
  induction l with
  | nil => simp at hi
  | cons j l ih =>
    rw [nodup_cons] at hl
    rw [remainingChild]
    by_cases hji : j = i
    · subst hji
      rw [h, if_neg (by simp), if_pos rfl]
      refine remainingChild_none (fun k hk => hothers k ?_) _
      rintro rfl
      exact hl.1 hk
    · rw [if_pos (hothers j hji)]
      exact ih hl.2 ((mem_cons.1 hi).resolve_left (Ne.symm hji))

lemma remainingChild_two {j : HexDigit} (hi : i ∈ l) (hj : j ∈ l) (hij : i ≠ j)
    (h : (children i).isEmpty = false) (h' : (children j).isEmpty = false) : remainingChild children l (-1) = -2 := by
  induction l with
  | nil => simp at hi
  | cons k l ih =>
    rw [remainingChild]
    rw [mem_cons] at hi hj
    by_cases hk : (children k).isEmpty = true
    · rw [if_pos hk]
      have hki : i ≠ k := by rintro rfl; simp [h] at hk
      have hkj : j ≠ k := by rintro rfl; simp [h'] at hk
      exact ih (hi.resolve_left hki) (hj.resolve_left hkj)
    · rw [if_neg hk, if_pos rfl]
      by_cases hki : i = k
      · exact remainingChild_more (hj.resolve_left fun hjk => hij (hki.trans hjk.symm)) h' (by simp)
      · exact remainingChild_more (hi.resolve_left hki) h (by simp)

end Remaining

/-- The short node for the only child `n`, which resolves to `rn`. -/
def absorb (digit : HexDigit) (n rn : Node) : Node :=
  match rn with
  | .short ckey cval _ => .short (digit :: ckey) cval newFlag
  | _ => .short [digit] n newFlag

lemma absorb_ne_hash (digit : HexDigit) (n rn : Node) (h : Hash) : absorb digit n rn ≠ .hash h := by
  cases rn <;> simp [absorb]

lemma Loads.absorb (top : Bool) (hn : Loads C db false n t) (hnil : t ≠ .nil) (digit : HexDigit)
    (path : List HexDigit) :
    ∃ rn, resolve db n path = .ok rn ∧ Loads C db top (Trie.absorb digit n rn) (join [digit] t) := by
  cases hn with
  | empty => exact absurd rfl hnil
  | value _ v =>
    refine ⟨_, rfl, ?_⟩
    rw [join_value (by simp)]
    exact .short (.value false v) (cached_newFlag _ _)
  | short hval _ => exact ⟨_, rfl, .short hval (cached_newFlag _ _)⟩
  | full hchildren hflags =>
    refine ⟨_, rfl, ?_⟩
    rw [join_full (by simp)]
    exact .short (.full hchildren hflags) (cached_newFlag _ _)
  | @hash _ h rn t hdb hrn hnode ht hh hlong =>
    refine ⟨rn, by rw [resolve, Trie.resolveHash, hdb], ?_⟩
    cases hrn with
    | empty => exact ht.elim
    | value => exact ht.elim
    | short hval _ => exact .short hval (cached_newFlag _ _)
    | full hchildren hflags =>
      -- the child stays by its hash
      rw [join_full (by simp)]
      exact .short (.hash hdb (.full hchildren hflags) hnode ht hh hlong) (cached_newFlag _ _)
    | hash => exact absurd rfl (hnode _)

/-- A full node without one of its children is the choice that is left. -/
lemma Loads.reduce (top : Bool) (path : List HexDigit)
    (hchildren : ∀ i, Loads C db false (children i) (c i)) (hend : ¬ Inner (c 16)) (hnil : ∃ i, c i ≠ .nil) :
    ∃ n', Trie.reduce db children path = .ok n' ∧ Loads C db top n' (branch c) ∧ ∀ h, n' ≠ .hash h := by
  have hempty : ∀ {i}, c i ≠ .nil → (children i).isEmpty = false := by
    intro i hi
    rw [← Bool.not_eq_true, (hchildren i).isEmpty]
    exact hi
  by_cases htwo : ∃ x y, x ≠ y ∧ c x ≠ .nil ∧ c y ≠ .nil
  · refine ⟨.full children newFlag, ?_, ?_, by simp⟩
    · obtain ⟨x, y, hxy, hx, hy⟩ := htwo
      have hpos := remainingChild_two (mem_finRange x) (mem_finRange y) hxy (hempty hx) (hempty hy)
      rw [Trie.reduce, hpos]
      rfl
    · rw [branch_two htwo]
      exact .full hchildren (cached_newFlag _ _)
  · obtain ⟨x, hx⟩ := hnil
    have hothers : ∀ y, y ≠ x → c y = .nil := fun y hy => by
      by_contra hne
      exact htwo ⟨y, x, hy, hne, hx⟩
    have hpos := remainingChild_one (nodup_finRange 17) (mem_finRange x) (hempty hx)
      fun y hy => (hchildren y).isEmpty.2 (hothers y hy)
    have hdigit : Fin.ofNat 17 ((x.val : Int)).toNat = x := by
      rw [Int.toNat_natCast]
      exact Fin.ofNat_val_eq_self x
    rw [branch_one hx hothers]
    by_cases hend' : x = 16
    · -- what is left is the value
      refine ⟨.short [x] (children x) newFlag, ?_, ?_, by simp⟩
      · rw [Trie.reduce, hpos]
        rw [if_pos (by omega), hdigit, if_pos (by subst hend'; rfl)]
      · subst hend'
        generalize hc : c 16 = t at hx hend
        have hloads := hchildren 16
        rw [hc] at hloads
        cases t with
        | nil => exact absurd rfl hx
        | value v =>
          rw [join_value (by simp)]
          exact .short hloads (cached_newFlag _ _)
        | short p t => exact absurd trivial hend
        | full c => exact absurd trivial hend
    · obtain ⟨rn, hresolve, hloads⟩ := (hchildren x).absorb top hx x path
      have hneg : ¬ (x.val : Int) = 16 := by
        intro h
        exact hend' (Fin.ext (Int.ofNat.inj h))
      refine ⟨Trie.absorb x (children x) rn, ?_, hloads, absorb_ne_hash x _ rn⟩
      rw [Trie.reduce, hpos]
      rw [if_pos (by omega), hdigit, if_neg hneg, hresolve]
      cases rn <;> rfl

lemma delete_run (hrest : rest ≠ []) (hdelete : val.delete db fuel (path ++ nkey) rest = .ok (dirty, nn)) :
    (short nkey val flags).delete db (fuel + 1) path (nkey ++ rest) =
      .ok (dirty, if dirty then prepend nkey nn else .short nkey val flags) := by
  have hlen : nkey.length ≠ (nkey ++ rest).length := by simpa using hrest
  rw [Node.delete]
  rw [prefixLen_append, if_neg (lt_irrefl _), if_neg hlen, take_left, drop_left, hdelete]
  cases dirty with
  | false => rfl
  | true => cases nn <;> rfl

lemma delete_child {n' : Node} (hdelete : (children digit).delete db fuel (path ++ [digit]) rest = .ok (dirty, nn))
    (hreduce : nn.isEmpty = true → reduce db (update children digit nn) path = .ok n') :
    (full children flags).delete db (fuel + 1) path (digit :: rest) =
      .ok (dirty, if dirty then if nn.isEmpty then n' else .full (update children digit nn) newFlag
        else .full children flags) := by
  rw [Node.delete]
  rw [hdelete]
  cases dirty with
  | false => rfl
  | true =>
    dsimp only [bind, Except.bind]
    rw [if_pos rfl, if_pos rfl]
    split
    · next hempty =>
      rw [hreduce hempty]
      rfl
    · rfl

lemma delete_hash (hdb : resolveHash db h path = .ok rn) (hdelete : rn.delete db fuel path key = .ok (dirty, nn)) :
    (Node.hash h).delete db (fuel + 1) path key = .ok (dirty, if dirty then nn else rn) := by
  rw [Node.delete, hdb]
  dsimp only [bind, Except.bind]
  rw [hdelete]
  cases dirty <;> rfl

lemma not_inner_delete (ht : ¬ Inner t) (key : List HexDigit) : ¬ Inner (t.delete key) := by
  cases t with
  | nil => exact ht
  | value v =>
    cases key with
    | nil => exact id
    | cons digit rest => exact ht
  | short p t => exact absurd trivial ht
  | full c => exact absurd trivial ht

lemma Loads.delete (fuel : Nat) (path : List HexDigit) (hn : Loads C db top n t) (hcanonical : t.Canonical)
    (hended : Ended t) (hapart : t.Apart key) (hfuel : 2 * key.length + n.cost ≤ fuel) :
    Changes C db top t (t.delete key) (n.delete db fuel path key) := by
  induction fuel generalizing n t top path key with
  | zero =>
    have := n.cost_pos
    omega
  | succ fuel ih =>
    cases hn with
    | empty => exact changes_not rfl (.empty top)
    | value _ w =>
      have hkey := hapart.value
      subst hkey
      exact changes_new rfl (.empty top) (by simp)
    | @short _ nkey val flags t hval hflags =>
      have hcost : (Node.short nkey val flags).cost = 1 := rfl
      by_cases hp : nkey <+: key
      · obtain ⟨r, rfl⟩ := hp
        have hnkey : 1 ≤ nkey.length := length_pos_iff.2 hcanonical.1
        have hle := val.cost_le
        rw [length_append] at hfuel
        rw [Tree.delete, if_pos (prefix_append _ _), drop_left]
        by_cases hr : r = []
        · -- the run ends the key, at a value
          subst hr
          rw [append_nil]
          have hvalue : t.delete [] = .nil := by
            cases t with
            | nil => rfl
            | value v => rfl
            | short p t => exact hcanonical.2.1.elim
            | full c => exact absurd rfl (Inner.key_ne_nil (t := .full c) trivial hcanonical.2.2 hapart.drop)
          rw [hvalue]
          refine changes_new ?_ (.empty top) (by simp)
          have hlen := prefixLen_append nkey []
          rw [append_nil] at hlen
          rw [Node.delete]
          rw [hlen, if_neg (lt_irrefl _), if_pos rfl]
        · obtain ⟨dirty, nn, hdelete, hloads, hclean, hnew⟩ :=
            ih (path ++ nkey) hval hcanonical.2.2 hended hapart.drop (by omega)
          have hrun : (Node.short nkey val flags).delete db (fuel + 1) path (nkey ++ r) = _ := delete_run hr hdelete
          cases dirty with
          | false =>
            rw [hclean rfl, join_forks hcanonical.1 hcanonical.2.1]
            exact changes_not hrun (.short hval hflags)
          | true =>
            have hnil : t.delete r ≠ .nil := by
              cases t with
              | nil => exact hcanonical.2.1.elim
              | value v => exact absurd hapart.drop.value hr
              | short p t => exact hcanonical.2.1.elim
              | full c => exact hcanonical.2.2.delete_full_ne_nil r
            exact changes_new hrun (hloads.prepend (hnew rfl) hnil hcanonical.1) (prepend_ne_hash nkey nn)
      · rw [Tree.delete, if_neg hp]
        refine changes_not ?_ (.short hval hflags)
        have hlt : prefixLen key nkey < nkey.length :=
          lt_of_le_of_ne (prefixLen_le key nkey) fun h => hp (prefix_of_prefixLen h)
        rw [Node.delete]
        rw [if_pos hlt]
    | @full _ children flags c hchildren hflags =>
      have hcost : (Node.full children flags).cost = 1 := rfl
      have hne : key ≠ [] := Inner.key_ne_nil (t := .full c) trivial hcanonical hapart
      obtain ⟨digit, rest, rfl⟩ := exists_cons_of_ne_nil hne
      have hle := (children digit).cost_le
      rw [length_cons] at hfuel
      obtain ⟨dirty, nn, hdelete, hloads, hclean, _⟩ :=
        ih (path ++ [digit]) (hchildren digit) (hcanonical.1 digit) (hended.1 digit) hapart.tail (by omega)
      have hupdate := loads_update hchildren digit hloads
      obtain ⟨other, hother, hne⟩ := hcanonical.exists_other digit
      have hkept : update c digit ((c digit).delete rest) other ≠ .nil := by
        rwa [update_of_ne hother]
      have hend : ¬ Inner (update c digit ((c digit).delete rest) 16) := by
        by_cases hdigit : digit = 16
        · subst hdigit
          rw [update_self]
          exact not_inner_delete hended.2.1 rest
        · rw [update_of_ne (Ne.symm hdigit)]
          exact hended.2.1
      obtain ⟨n', hreduce, hn', hnew⟩ := Loads.reduce top path hupdate hend ⟨other, hkept⟩
      have hchild : (Node.full children flags).delete db (fuel + 1) path (digit :: rest) = _ :=
        delete_child hdelete fun _ => hreduce
      rw [Tree.delete]
      cases dirty with
      | false =>
        rw [hclean rfl, update_eq_self, branch_two hcanonical.2]
        exact changes_not hchild (.full hchildren hflags)
      | true =>
        rw [if_pos rfl] at hchild
        by_cases hempty : nn.isEmpty = true
        · rw [if_pos hempty] at hchild
          exact changes_new hchild hn' hnew
        · rw [if_neg hempty] at hchild
          -- the child is still there, and another one
          have hdigit : update c digit ((c digit).delete rest) digit ≠ .nil := by
            rw [update_self]
            exact fun h => hempty (hloads.isEmpty.2 h)
          rw [branch_two ⟨digit, other, Ne.symm hother, hdigit, hkept⟩]
          exact changes_new hchild (.full hupdate (cached_newFlag _ _)) (by simp)
    | @hash _ h rn t hdb hrn hnode ht hh hlong =>
      have hcost : (Node.hash h).cost = 2 := rfl
      have hcost' := cost_resolved hnode
      have hresolve : Trie.resolveHash db h path = .ok rn := by rw [Trie.resolveHash, hdb]
      obtain ⟨dirty, nn, hdelete, hloads, hclean, hnew⟩ := ih path (hrn.relax hlong) hcanonical hended hapart (by omega)
      exact changes_of (delete_hash hresolve hdelete) (hrn.relax hlong) hloads hclean hnew

end TurboOctopus.Trie
