import Mathlib.Data.List.Infix
/-!
# Patricia trees

Trees over an alphabet in which a run of letters without a choice is one node. In
canonical form no run is empty or follows another one, and every node with a choice has
one: two canonical trees with the same entries are equal. Keys are such that none is the
beginning of another.
-/

namespace TurboOctopus.Lib.Patricia

open List Function

inductive Tree (α β : Type) where
  | nil
  | value (b : β)
  | short (key : List α) (t : Tree α β)
  | full (children : α → Tree α β)

variable {α β : Type} [DecidableEq α]

namespace Tree

def lookup : Tree α β → List α → Option β
  | nil, _ => none
  | value b, [] => some b
  | value _, _ :: _ => none
  | short p t, k => if p <+: k then t.lookup (k.drop p.length) else none
  | full _, [] => none
  | full c, x :: k => (c x).lookup k

/-- What may follow a run. -/
def Forks : Tree α β → Prop
  | nil => False
  | value _ => True
  | short _ _ => False
  | full _ => True

def Canonical : Tree α β → Prop
  | nil => True
  | value _ => True
  | short p t => p ≠ [] ∧ t.Forks ∧ t.Canonical
  | full c => (∀ x, (c x).Canonical) ∧ ∃ x y, x ≠ y ∧ c x ≠ nil ∧ c y ≠ nil

/-! ## Entries -/

@[simp] lemma lookup_nil (k : List α) : (nil : Tree α β).lookup k = none :=
  rfl

@[simp] lemma lookup_value_nil (b : β) : (value b : Tree α β).lookup [] = some b :=
  rfl

@[simp] lemma lookup_value_cons (b : β) (x : α) (k : List α) : (value b : Tree α β).lookup (x :: k) = none :=
  rfl

@[simp] lemma lookup_short_append (p k : List α) (t : Tree α β) : (short p t).lookup (p ++ k) = t.lookup k := by
  rw [lookup, if_pos (prefix_append p k), drop_left]

lemma lookup_short_of_not {p k : List α} (t : Tree α β) (h : ¬ p <+: k) : (short p t).lookup k = none := by
  rw [lookup, if_neg h]

@[simp] lemma lookup_full_nil (c : α → Tree α β) : (full c).lookup [] = none :=
  rfl

@[simp] lemma lookup_full_cons (c : α → Tree α β) (x : α) (k : List α) : (full c).lookup (x :: k) = (c x).lookup k :=
  rfl

variable {t t' : Tree α β} {p k : List α} {b : β}

lemma lookup_short_some (h : (short p t).lookup k = some b) : ∃ r, k = p ++ r ∧ t.lookup r = some b := by
  rw [lookup] at h
  split at h
  · next hp =>
    obtain ⟨r, rfl⟩ := hp
    rw [drop_left] at h
    exact ⟨r, rfl, h⟩
  · cases h

lemma lookup_short_nil (hp : p ≠ []) : (short p t).lookup [] = none :=
  lookup_short_of_not t fun h => hp (prefix_nil.1 h)

/-- A canonical tree that is not empty has an entry. -/
lemma Canonical.exists_entry (ht : t.Canonical) (hnil : t ≠ nil) : ∃ k b, t.lookup k = some b := by
  induction t with
  | nil => exact absurd rfl hnil
  | value b => exact ⟨[], b, lookup_value_nil b⟩
  | short p t ih =>
    obtain ⟨-, hforks, ht⟩ := ht
    obtain ⟨k, b, h⟩ := ih ht (by rintro rfl; exact hforks)
    exact ⟨p ++ k, b, by rwa [lookup_short_append]⟩
  | full c ih =>
    obtain ⟨hc, x, -, -, hx, -⟩ := ht
    obtain ⟨k, b, h⟩ := ih x (hc x) hx
    exact ⟨x :: k, b, by rwa [lookup_full_cons]⟩

variable {c : α → Tree α β} {p' q : List α} {x y : α}

/-- The entries after a run have no common beginning. -/
lemma Canonical.common_prefix (ht : t.Canonical) (hforks : t.Forks)
    (hq : ∀ k b, t.lookup k = some b → q <+: k) : q = [] := by
  cases t with
  | nil => exact hforks.elim
  | value b => exact prefix_nil.1 (hq [] b (lookup_value_nil b))
  | short p t => exact hforks.elim
  | full c =>
    obtain ⟨hc, x, y, hxy, hx, hy⟩ := ht
    obtain ⟨k, b, hk⟩ := (hc x).exists_entry hx
    obtain ⟨l, d, hl⟩ := (hc y).exists_entry hy
    cases q with
    | nil => rfl
    | cons z q =>
      have hzx := (cons_prefix_cons.1 (hq (x :: k) b (by rwa [lookup_full_cons]))).1
      have hzy := (cons_prefix_cons.1 (hq (y :: l) d (by rwa [lookup_full_cons]))).1
      exact absurd (hzx.symm.trans hzy) hxy

lemma Canonical.not_short_full (ht : (short p t).Canonical) (hc : (full c).Canonical) :
    ¬ ∀ k, (short p t).lookup k = (full c).lookup k := by
  intro h
  refine ht.1 (hc.common_prefix trivial fun k b hk => ?_)
  obtain ⟨r, rfl, -⟩ := lookup_short_some ((h k).trans hk)
  exact prefix_append p r

/-- A run is as long as it can be. -/
lemma Canonical.short_key (ht : (short p t).Canonical) (ht' : (short p' t').Canonical)
    (h : ∀ k, (short p t).lookup k = (short p' t').lookup k) : p = p' := by
  have hle : ∀ {p p' : List α} {t t' : Tree α β}, (short p t).Canonical →
      (∀ k, (short p t).lookup k = (short p' t').lookup k) → p <+: p' → p = p' := by
    rintro p _ t t' ⟨-, hforks, ht⟩ h ⟨q, rfl⟩
    have hq : q = [] := by
      refine ht.common_prefix hforks fun k b hk => ?_
      obtain ⟨r, hr, -⟩ := lookup_short_some ((h (p ++ k)).symm.trans ((lookup_short_append p k t).trans hk))
      rw [append_assoc] at hr
      exact ⟨r, (append_cancel_left hr).symm⟩
    rw [hq, append_nil]
  obtain ⟨k, b, hk⟩ := ht.exists_entry nofun
  obtain ⟨r, hr, -⟩ := lookup_short_some hk
  obtain ⟨r', hr', -⟩ := lookup_short_some ((h k).symm.trans hk)
  obtain hpp | hpp := prefix_or_prefix_of_prefix ⟨r, hr.symm⟩ ⟨r', hr'.symm⟩
  · exact hle ht h hpp
  · exact (hle ht' (fun k => (h k).symm) hpp).symm

lemma Canonical.eq_nil (ht : t.Canonical) (h : ∀ k, t.lookup k = none) : t = nil := by
  by_contra hne
  obtain ⟨k, b, hk⟩ := ht.exists_entry hne
  rw [h k] at hk
  cases hk

lemma Canonical.ext (ht : t.Canonical) (ht' : t'.Canonical) (h : ∀ k, t.lookup k = t'.lookup k) : t = t' := by
  induction t generalizing t' with
  | nil => exact (ht'.eq_nil fun k => (h k).symm).symm
  | value b =>
    have hb := h []
    rw [lookup_value_nil] at hb
    cases t' with
    | nil => cases hb
    | value b' => cases hb; rfl
    | short p t => rw [lookup_short_nil ht'.1] at hb; cases hb
    | full c => cases hb
  | short p t ih =>
    cases t' with
    | nil => exact ht.eq_nil h
    | value b =>
      have hb := h []
      rw [lookup_short_nil ht.1] at hb
      cases hb
    | short p' t' =>
      obtain rfl := ht.short_key ht' h
      rw [ih ht.2.2 ht'.2.2]
      intro k
      have hk := h (p ++ k)
      rwa [lookup_short_append, lookup_short_append] at hk
    | full c => exact absurd h (ht.not_short_full ht')
  | full c ih =>
    cases t' with
    | nil => exact ht.eq_nil h
    | value b => cases h []
    | short p t => exact absurd (fun k => (h k).symm) (ht'.not_short_full ht)
    | full c' =>
      congr 1
      funext x
      apply ih x (ht.1 x) (ht'.1 x)
      intro k
      have hk := h (x :: k)
      rwa [lookup_full_cons, lookup_full_cons] at hk

/-! ## Runs and choices -/

/-- A run before a tree that is no run, if there is one. -/
def extend (p : List α) (t : Tree α β) : Tree α β := if p = [] then t else short p t

/-- A run before any tree. -/
def join (p : List α) : Tree α β → Tree α β
  | nil => nil
  | short q t => short (p ++ q) t
  | t => extend p t

open Classical in
/-- A choice, or what is left of it. -/
noncomputable def branch (c : α → Tree α β) : Tree α β :=
  if ∃ x y, x ≠ y ∧ c x ≠ nil ∧ c y ≠ nil then full c
  else if h : ∃ x, c x ≠ nil then join [h.choose] (c h.choose)
  else nil

section
omit [DecidableEq α]

lemma join_value {p : List α} (hp : p ≠ []) (b : β) : join p (value b) = short p (value b) := by
  simp [join, extend, hp]

lemma join_full {p : List α} (hp : p ≠ []) (c : α → Tree α β) : join p (full c) = short p (full c) := by
  simp [join, extend, hp]

lemma join_forks {p : List α} (hp : p ≠ []) {t : Tree α β} (ht : t.Forks) : join p t = short p t := by
  cases t with
  | nil => exact ht.elim
  | value b => exact join_value hp b
  | short q t => exact ht.elim
  | full c => exact join_full hp c

lemma join_ne_nil (p : List α) {t : Tree α β} (ht : t ≠ nil) : join p t ≠ nil := by
  cases t with
  | nil => exact absurd rfl ht
  | short q t => simp [join]
  | value b =>
    simp only [join, extend]
    split <;> simp
  | full c =>
    simp only [join, extend]
    split <;> simp

lemma branch_two (h : ∃ x y, x ≠ y ∧ c x ≠ nil ∧ c y ≠ nil) : branch c = full c := by
  rw [branch, if_pos h]

lemma branch_one (hx : c x ≠ nil) (hothers : ∀ y, y ≠ x → c y = nil) : branch c = join [x] (c x) := by
  have honly : ∀ y, c y ≠ nil → y = x := fun y hy => by
    by_contra hne
    exact hy (hothers y hne)
  have hex : ∃ y, c y ≠ nil := ⟨x, hx⟩
  rw [branch, if_neg, dif_pos hex, honly _ hex.choose_spec]
  rintro ⟨y, z, hyz, hy, hz⟩
  exact hyz ((honly y hy).trans (honly z hz).symm)

lemma branch_ne_nil (hx : c x ≠ nil) : branch c ≠ nil := by
  by_cases htwo : ∃ x y, x ≠ y ∧ c x ≠ nil ∧ c y ≠ nil
  · simp [branch_two htwo]
  · rw [branch_one hx]
    · exact join_ne_nil _ hx
    · intro y hy
      by_contra hne
      exact htwo ⟨y, x, hy, hne, hx⟩

end

lemma lookup_extend (p k : List α) (t : Tree α β) : (extend p t).lookup (p ++ k) = t.lookup k := by
  rw [extend]
  split
  · next h => rw [h, nil_append]
  · exact lookup_short_append p k t

lemma lookup_extend_of_not (t : Tree α β) (h : ¬ p <+: k) : (extend p t).lookup k = none := by
  rw [extend, if_neg]
  · exact lookup_short_of_not t h
  · rintro rfl
    exact h nil_prefix

lemma lookup_extend_value (p k : List α) (b : β) : (extend p (value b)).lookup k = if k = p then some b else none := by
  by_cases hp : p <+: k
  · obtain ⟨r, rfl⟩ := hp
    rw [lookup_extend]
    cases r with
    | nil => simp
    | cons x r => simp
  · rw [lookup_extend_of_not _ hp, if_neg]
    rintro rfl
    exact hp (prefix_refl k)

lemma lookup_join (p k : List α) (t : Tree α β) : (join p t).lookup (p ++ k) = t.lookup k := by
  cases t with
  | nil => rfl
  | value b => exact lookup_extend p k _
  | full c => exact lookup_extend p k _
  | short q t =>
    rw [join]
    by_cases hq : q <+: k
    · obtain ⟨r, rfl⟩ := hq
      rw [← append_assoc, lookup_short_append, lookup_short_append]
    · rw [lookup_short_of_not _ hq, lookup_short_of_not]
      rwa [prefix_append_right_inj]

lemma lookup_join_of_not (t : Tree α β) (h : ¬ p <+: k) : (join p t).lookup k = none := by
  cases t with
  | nil => rfl
  | value b => exact lookup_extend_of_not _ h
  | full c => exact lookup_extend_of_not _ h
  | short q t => exact lookup_short_of_not t fun hpq => h ((prefix_append p q).trans hpq)

lemma lookup_branch_nil (c : α → Tree α β) : (branch c).lookup [] = none := by
  rw [branch]
  split
  · rw [lookup_full_nil]
  · split
    · exact lookup_join_of_not _ (by simp)
    · rfl

lemma lookup_branch_cons (c : α → Tree α β) (x : α) (k : List α) : (branch c).lookup (x :: k) = (c x).lookup k := by
  rw [branch]
  split
  · rw [lookup_full_cons]
  · next hone =>
    split
    · next h =>
      by_cases hx : x = h.choose
      · have hj := lookup_join [h.choose] k (c h.choose)
        rw [hx]
        exact hj
      · have hnil : c x = nil := by
          by_contra hne
          exact hone ⟨x, h.choose, hx, hne, h.choose_spec⟩
        rw [hnil, lookup_nil]
        apply lookup_join_of_not
        rw [cons_prefix_cons]
        exact fun h => hx h.1.symm
    · next h =>
      have hnil : c x = nil := by
        by_contra hne
        exact h ⟨x, hne⟩
      rw [hnil, lookup_nil, lookup_nil]

section
omit [DecidableEq α]

lemma Canonical.extend (ht : t.Canonical) (hforks : t.Forks) (p : List α) : (extend p t).Canonical := by
  rw [Tree.extend]
  split
  · exact ht
  · next hp => exact ⟨hp, hforks, ht⟩

lemma Canonical.join (ht : t.Canonical) (p : List α) : (join p t).Canonical := by
  cases t with
  | nil => exact trivial
  | value b => exact Canonical.extend (t := value b) ht trivial p
  | full c => exact Canonical.extend ht trivial p
  | short q t => exact ⟨fun h => ht.1 (append_eq_nil_iff.1 h).2, ht.2⟩

lemma canonical_branch (hc : ∀ x, (c x).Canonical) : (branch c).Canonical := by
  rw [branch]
  split
  · next h => exact ⟨hc, h⟩
  · split
    · exact (hc _).join _
    · exact trivial

end

/-! ## Changes -/

/-- Keys below `k` or above it that are not `k` have no entry. -/
def Apart (t : Tree α β) (k : List α) : Prop := ∀ k', t.lookup k' ≠ none → k' <+: k ∨ k <+: k' → k' = k

/-- The letters that two keys begin with. -/
def prefixLen : List α → List α → Nat
  | x :: k, y :: l => if x = y then prefixLen k l + 1 else 0
  | _, _ => 0

lemma prefixLen_le (k p : List α) : prefixLen k p ≤ p.length := by
  induction k generalizing p with
  | nil => simp [prefixLen]
  | cons x k ih =>
    cases p with
    | nil => simp [prefixLen]
    | cons y p =>
      rw [prefixLen]
      split
      · simpa using ih p
      · simp

lemma prefixLen_append (p k : List α) : prefixLen (p ++ k) p = p.length := by
  induction p with
  | nil => cases k <;> rfl
  | cons x p ih => simp [prefixLen, ih]

lemma prefixLen_apart (q : List α) {k p : List α} (h : x ≠ y) : prefixLen (q ++ x :: k) (q ++ y :: p) = q.length := by
  induction q with
  | nil => simp [prefixLen, h]
  | cons z q ih => simp [prefixLen, ih]

lemma prefix_of_prefixLen {k p : List α} (h : prefixLen k p = p.length) : p <+: k := by
  induction k generalizing p with
  | nil =>
    cases p with
    | nil => simp
    | cons y p => simp [prefixLen] at h
  | cons x k ih =>
    cases p with
    | nil => simp
    | cons y p =>
      rw [prefixLen] at h
      split at h
      · next hxy =>
        rw [length_cons, Nat.add_right_cancel_iff] at h
        rw [hxy, cons_prefix_cons]
        exact ⟨rfl, ih h⟩
      · simp at h

/-- A run with another key beside it. -/
def split (p : List α) (t : Tree α β) (k : List α) (b : β) : Tree α β :=
  let n := prefixLen k p
  match p.drop n, k.drop n with
  | y :: p', x :: k' =>
    extend (k.take n) (full (Function.update (Function.update (fun _ => nil) y (extend p' t)) x (extend k' (value b))))
  | _, _ => short p t

def insert : Tree α β → List α → β → Tree α β
  | nil, k, b => extend k (value b)
  | value _, k, b => extend k (value b)
  | short p t, k, b => if p <+: k then short p (t.insert (k.drop p.length) b) else split p t k b
  | full c, [], _ => full c
  | full c, x :: k, b => full (Function.update c x ((c x).insert k b))

/-- Two keys of which neither begins with the other part at a letter. -/
lemma prefixLen_spec {k p : List α} (hpk : ¬ p <+: k) (hkp : ¬ k <+: p) :
    ∃ q x y k' p', k = q ++ x :: k' ∧ p = q ++ y :: p' ∧ x ≠ y ∧ prefixLen k p = q.length := by
  induction k generalizing p with
  | nil => exact absurd nil_prefix hkp
  | cons a k ih =>
    cases p with
    | nil => exact absurd nil_prefix hpk
    | cons c p =>
      by_cases hac : a = c
      · subst hac
        rw [prefix_cons_inj] at hpk hkp
        obtain ⟨q, x, y, k', p', rfl, rfl, hxy, hlen⟩ := ih hpk hkp
        exact ⟨a :: q, x, y, k', p', rfl, rfl, hxy, by rw [prefixLen, if_pos rfl, hlen]; rfl⟩
      · exact ⟨[], a, c, k, p, rfl, rfl, hac, by rw [prefixLen, if_neg hac]; rfl⟩

lemma split_eq {k' : List α} (t : Tree α β) (b : β) (hlen : prefixLen (q ++ x :: k') (q ++ y :: p') = q.length) :
    split (q ++ y :: p') t (q ++ x :: k') b =
      extend q (full (Function.update (Function.update (fun _ => nil) y (extend p' t)) x (extend k' (value b)))) := by
  rw [split, hlen, drop_left, drop_left, take_left]

lemma Apart.tail (h : (full c).Apart (x :: k)) : (c x).Apart k := by
  intro k' hne hcmp
  have heq := h (x :: k') (by rwa [lookup_full_cons]) (by rwa [prefix_cons_inj, prefix_cons_inj])
  exact (List.cons.inj heq).2

lemma Apart.drop (h : (short p t).Apart (p ++ k)) : t.Apart k := by
  intro k' hne hcmp
  have heq := h (p ++ k') (by rwa [lookup_short_append]) (by rwa [prefix_append_right_inj, prefix_append_right_inj])
  exact append_cancel_left heq

/-- The key of a value is not the beginning of a key apart from it. -/
lemma Apart.value {b : β} (h : (value b : Tree α β).Apart k) : k = [] :=
  (h [] (by simp) (.inl nil_prefix)).symm

lemma Canonical.apart_ne_nil (ht : t.Canonical) (hnil : t ≠ nil) (h0 : t.lookup [] = none) (h : t.Apart k) : k ≠ [] := by
  rintro rfl
  obtain ⟨k', b, hk'⟩ := ht.exists_entry hnil
  have := h k' (by simp [hk']) (.inr nil_prefix)
  rw [this, h0] at hk'
  cases hk'

/-- A key that does not follow a run parts from it. -/
lemma Canonical.apart_run (ht : (short p t).Canonical) (h : (short p t).Apart k) (hp : ¬ p <+: k) : ¬ k <+: p := by
  intro hk
  obtain ⟨k', b, hk'⟩ := ht.exists_entry nofun
  obtain ⟨r, rfl, -⟩ := lookup_short_some hk'
  have heq := h (p ++ r) (by simp [hk']) (.inr (hk.trans (prefix_append p r)))
  exact hp (heq ▸ prefix_append p r)

omit [DecidableEq α] in
lemma extend_ne_nil (p : List α) (hnil : t ≠ nil) : extend p t ≠ nil := by
  rw [extend]
  split
  · exact hnil
  · exact nofun

lemma insert_ne_nil (ht : t.Canonical) (h : t.Apart k) (b : β) : t.insert k b ≠ nil := by
  cases t with
  | nil => exact extend_ne_nil k nofun
  | value b' => exact extend_ne_nil k nofun
  | short p t =>
    rw [insert]
    split
    · exact nofun
    · next hp =>
      obtain ⟨q, x, y, k', p', rfl, rfl, hxy, hlen⟩ := prefixLen_spec hp (ht.apart_run h hp)
      rw [split_eq t b hlen]
      exact extend_ne_nil q nofun
  | full c =>
    cases k with
    | nil => exact nofun
    | cons x k => exact nofun

lemma insert_forks (hforks : t.Forks) (h : t.Apart k) (b : β) : (t.insert k b).Forks := by
  cases t with
  | nil => exact hforks.elim
  | value b' =>
    rw [h.value]
    exact trivial
  | short p t => exact hforks.elim
  | full c =>
    cases k with
    | nil => exact trivial
    | cons x k => exact trivial

lemma lookup_insert (ht : t.Canonical) (h : t.Apart k) (b : β) (k' : List α) :
    (t.insert k b).lookup k' = if k' = k then some b else t.lookup k' := by
  induction t generalizing k k' with
  | nil => exact lookup_extend_value k k' b
  | value b' =>
    rw [h.value]
    cases k' with
    | nil => rfl
    | cons x k' => rfl
  | short p t ih =>
    rw [insert]
    split
    · next hp =>
      obtain ⟨r, rfl⟩ := hp
      rw [drop_left]
      by_cases hpk : p <+: k'
      · obtain ⟨r', rfl⟩ := hpk
        rw [lookup_short_append, lookup_short_append, ih ht.2.2 h.drop]
        simp
      · rw [lookup_short_of_not _ hpk, lookup_short_of_not _ hpk, if_neg]
        rintro rfl
        exact hpk (prefix_append p r)
    · next hp =>
      obtain ⟨q, x, y, l, p', rfl, rfl, hxy, hlen⟩ := prefixLen_spec hp (ht.apart_run h hp)
      rw [split_eq t b hlen]
      by_cases hq : q <+: k'
      · obtain ⟨r, rfl⟩ := hq
        rw [lookup_extend]
        cases r with
        | nil =>
          rw [lookup_full_nil, if_neg (by simp), lookup_short_of_not]
          rw [prefix_append_right_inj]
          simp
        | cons z r =>
          rw [lookup_full_cons]
          by_cases hzx : z = x
          · subst hzx
            rw [update_self, lookup_extend_value, lookup_short_of_not]
            · simp
            · rw [prefix_append_right_inj, cons_prefix_cons]
              exact fun h => hxy h.1.symm
          · rw [update_of_ne hzx, if_neg (by simpa using fun h _ => hzx h)]
            by_cases hzy : z = y
            · subst hzy
              rw [update_self]
              by_cases hr : p' <+: r
              · obtain ⟨r', rfl⟩ := hr
                rw [lookup_extend, show q ++ z :: (p' ++ r') = (q ++ z :: p') ++ r' by simp, lookup_short_append]
              · rw [lookup_extend_of_not _ hr, lookup_short_of_not]
                rwa [prefix_append_right_inj, prefix_cons_inj]
            · rw [update_of_ne hzy, lookup_nil, lookup_short_of_not]
              rw [prefix_append_right_inj, cons_prefix_cons]
              exact fun h => hzy h.1.symm
      · rw [lookup_extend_of_not _ hq, if_neg, lookup_short_of_not]
        · exact fun h => hq ((prefix_append q _).trans h)
        · rintro rfl
          exact hq (prefix_append q _)
  | full c ih =>
    cases k with
    | nil => exact absurd rfl (ht.apart_ne_nil nofun (lookup_full_nil c) h)
    | cons x k =>
      rw [insert]
      cases k' with
      | nil => simp
      | cons z k' =>
        rw [lookup_full_cons, lookup_full_cons]
        by_cases hzx : z = x
        · subst hzx
          rw [update_self, ih z (ht.1 z) h.tail]
          simp
        · rw [update_of_ne hzx, if_neg]
          simpa using fun h _ => hzx h

lemma canonical_update (hc : ∀ z, (c z).Canonical) (x : α) (ht : t.Canonical) :
    ∀ z, (Function.update c x t z).Canonical :=
  (Function.forall_update_iff c fun _ t => t.Canonical).2 ⟨ht, fun z _ => hc z⟩

lemma Canonical.insert (ht : t.Canonical) (h : t.Apart k) (b : β) : (t.insert k b).Canonical := by
  induction t generalizing k with
  | nil => exact Canonical.extend (t := value b) trivial trivial k
  | value b' => exact Canonical.extend (t := value b) trivial trivial k
  | short p t ih =>
    rw [Tree.insert]
    split
    · next hp =>
      obtain ⟨r, rfl⟩ := hp
      rw [drop_left]
      exact ⟨ht.1, insert_forks ht.2.1 h.drop b, ih ht.2.2 h.drop⟩
    · next hp =>
      obtain ⟨q, x, y, k', p', rfl, rfl, hxy, hlen⟩ := prefixLen_spec hp (ht.apart_run h hp)
      rw [split_eq t b hlen]
      refine Canonical.extend (t := full _) ⟨?_, x, y, hxy, ?_, ?_⟩ trivial q
      · have hold := canonical_update (c := fun _ => nil) (fun _ => trivial) y (ht.2.2.extend ht.2.1 p')
        exact canonical_update hold x (Canonical.extend (t := value b) trivial trivial k')
      · rw [update_self]
        exact extend_ne_nil k' nofun
      · rw [update_of_ne hxy.symm, update_self]
        refine extend_ne_nil p' ?_
        rintro rfl
        exact ht.2.1
  | full c ih =>
    cases k with
    | nil => exact ht
    | cons x k =>
      obtain ⟨hc, y, z, hyz, hy, hz⟩ := ht
      have hkeep : ∀ w, c w ≠ nil → Function.update c x ((c x).insert k b) w ≠ nil := by
        intro w hw
        by_cases hwx : w = x
        · rw [hwx, update_self]
          exact insert_ne_nil (hc x) h.tail b
        · rwa [update_of_ne hwx]
      exact ⟨canonical_update hc x (ih x (hc x) h.tail), y, z, hyz, hkeep y hy, hkeep z hz⟩

noncomputable def delete : Tree α β → List α → Tree α β
  | nil, _ => nil
  | value _, [] => nil
  | value b, _ :: _ => value b
  | short p t, k => if p <+: k then join p (t.delete (k.drop p.length)) else short p t
  | full c, [] => full c
  | full c, x :: k => branch (Function.update c x ((c x).delete k))

omit [DecidableEq α] in
/-- Every letter leaves a child. -/
lemma Canonical.exists_other (ht : (full c).Canonical) (x : α) : ∃ y, y ≠ x ∧ c y ≠ nil := by
  obtain ⟨y, z, hyz, hy, hz⟩ := ht.2
  by_cases hyx : y = x
  · exact ⟨z, fun hzx => hyz (hyx.trans hzx.symm), hz⟩
  · exact ⟨y, hyx, hy⟩

lemma Canonical.delete_full_ne_nil (ht : (full c).Canonical) (k : List α) : (full c).delete k ≠ nil := by
  cases k with
  | nil => simp [Tree.delete]
  | cons x k =>
    obtain ⟨y, hyx, hy⟩ := ht.exists_other x
    rw [Tree.delete]
    apply branch_ne_nil (x := y)
    rwa [update_of_ne hyx]

lemma lookup_delete (t : Tree α β) (k k' : List α) :
    (t.delete k).lookup k' = if k' = k then none else t.lookup k' := by
  induction t generalizing k k' with
  | nil => simp [delete]
  | value b =>
    cases k with
    | nil =>
      rw [delete]
      cases k' with
      | nil => rfl
      | cons x k' => rfl
    | cons x k =>
      rw [delete]
      cases k' with
      | nil => rfl
      | cons y k' => simp
  | short p t ih =>
    rw [delete]
    split
    · next hp =>
      obtain ⟨r, rfl⟩ := hp
      rw [drop_left]
      by_cases hpk : p <+: k'
      · obtain ⟨r', rfl⟩ := hpk
        rw [lookup_join, lookup_short_append, ih]
        simp
      · rw [lookup_join_of_not _ hpk, lookup_short_of_not _ hpk, ite_self]
    · next hp =>
      split
      · next hk => rw [hk, lookup_short_of_not _ hp]
      · rfl
  | full c ih =>
    cases k with
    | nil =>
      rw [delete]
      split
      · next hk => rw [hk, lookup_full_nil]
      · rfl
    | cons x k =>
      rw [delete]
      cases k' with
      | nil => simp [lookup_branch_nil]
      | cons z k' =>
        rw [lookup_branch_cons, lookup_full_cons]
        by_cases hzx : z = x
        · subst hzx
          rw [update_self, ih]
          simp
        · rw [update_of_ne hzx, if_neg]
          simpa using fun h _ => hzx h

lemma Canonical.delete (ht : t.Canonical) (k : List α) : (t.delete k).Canonical := by
  induction t generalizing k with
  | nil => exact trivial
  | value b =>
    cases k with
    | nil => exact trivial
    | cons x k => exact trivial
  | short p t ih =>
    rw [Tree.delete]
    split
    · exact (ih ht.2.2 _).join p
    · exact ht
  | full c ih =>
    cases k with
    | nil => exact ht
    | cons x k =>
      rw [Tree.delete]
      exact canonical_branch (canonical_update ht.1 x (ih x (ht.1 x) k))

end Tree

end TurboOctopus.Lib.Patricia
