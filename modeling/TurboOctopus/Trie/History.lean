import TurboOctopus.Trie.Refine
/-!
# What a trie depends on

A trie stands for a tree in canonical form whose keys are the hex forms of byte strings.
Every call keeps this and changes the entries as a map is changed, and the tree, with the
root hash, is determined by the entries.
-/
namespace TurboOctopus.Trie

open Lib Lib.Patricia TurboOctopus.Types List Function
open Lib.Patricia.Tree hiding value

/-! ## Keys -/

/-- The digits of a key before its end. -/
def nibbles (str : List UInt8) : List HexDigit :=
  str.flatMap fun b => [Fin.ofNat 17 (b.toNat / 16), Fin.ofNat 17 (b.toNat % 16)]

lemma keybytesToHex_eq (str : List UInt8) : keybytesToHex str = nibbles str ++ [16] := rfl

lemma end_not_mem_nibbles (str : List UInt8) : (16 : HexDigit) ∉ nibbles str := by
  intro h
  obtain ⟨b, -, hb⟩ := mem_flatMap.1 h
  have hlt := b.toNat_lt
  simp only [mem_cons, not_mem_nil, or_false, Fin.ext_iff, Fin.val_ofNat] at hb
  have h16 : (16 : HexDigit).val = 16 := rfl
  omega

lemma decodeNibbles_nibbles (str : List UInt8) : decodeNibbles (nibbles str) = str := by
  induction str with
  | nil => rfl
  | cons b str ih =>
    have hb := b.toNat_lt
    rw [nibbles, flatMap_cons, cons_append, cons_append, nil_append, decodeNibbles, ← nibbles, ih]
    congr 1
    apply UInt8.toNat.inj
    simp only [Fin.val_ofNat, UInt8.toNat_ofNat']
    omega

/-- No key is the beginning of another. -/
lemma keybytesToHex_prefix_free {a b : List UInt8} (h : keybytesToHex a <+: keybytesToHex b) : a = b := by
  rw [keybytesToHex_eq, keybytesToHex_eq, prefix_concat_iff] at h
  rcases h with h | h
  · rw [← decodeNibbles_nibbles a, append_cancel_right h, decodeNibbles_nibbles]
  · exact absurd (h.subset (by simp)) (end_not_mem_nibbles b)

lemma keybytesToHex_injective {a b : List UInt8} (h : keybytesToHex a = keybytesToHex b) : a = b :=
  keybytesToHex_prefix_free (h ▸ prefix_refl _)

/-- The end is at the end, and nowhere else. -/
def Ending : List HexDigit → Prop
  | [] => True
  | digit :: key => (digit = 16 ↔ key = []) ∧ Ending key

lemma Ending.drop {p k : List HexDigit} (h : Ending (p ++ k)) : Ending k := by
  induction p with
  | nil => exact h
  | cons digit p ih => exact ih h.2

lemma ending_keybytesToHex (str : List UInt8) : Ending (keybytesToHex str) := by
  have hmem := end_not_mem_nibbles str
  rw [keybytesToHex_eq]
  generalize nibbles str = k at hmem
  induction k with
  | nil => exact ⟨by simp, trivial⟩
  | cons digit k ih =>
    rw [mem_cons, not_or] at hmem
    exact ⟨by simpa using Ne.symm hmem.1, ih hmem.2⟩

lemma ended_of_keys {t : HexTree} (ht : t.Canonical) (hkeys : ∀ k, t.lookup k ≠ none → Ending k) : Ended t := by
  induction t with
  | nil => trivial
  | value v => trivial
  | short p t ih =>
    refine ih ht.2.2 fun k hk => ?_
    exact (hkeys (p ++ k) (by rwa [lookup_short_append])).drop
  | full c ih =>
    have hchild : ∀ i k, (c i).lookup k ≠ none → Ending (i :: k) := fun i k hk =>
      hkeys (i :: k) (by rwa [lookup_full_cons])
    refine ⟨fun i => ih i (ht.1 i) fun k hk => (hchild i k hk).2, ?_, ?_⟩
    · -- an entry below the end would go on after it
      intro hinner
      obtain ⟨k, v, hk⟩ := (ht.1 16).exists_entry hinner.ne_nil
      have hnil : k = [] := (hchild 16 k (by simp [hk])).1.1 rfl
      rw [hnil, hinner.lookup_nil (ht.1 16)] at hk
      cases hk
    · intro i hi v hv
      exact hi ((hchild i [] (by simp [hv])).1.2 rfl)

/-! ## Tries and their trees -/

/-- The hash nodes of the trie resolve, to a tree in minimal form over hex keys. -/
structure Stands (C : Crypto) (t : Trie) (tree : HexTree) : Prop where
  loads : Loads C t.db true t.root tree
  canonical : tree.Canonical
  keys : ∀ k, tree.lookup k ≠ none → ∃ key, k = keybytesToHex key

abbrev Entries := List UInt8 → Option (List UInt8)

def entries (tree : HexTree) : Entries := fun key => tree.lookup (keybytesToHex key)

lemma stands_empty (C : Crypto) (db : NodeDb) : Stands C ⟨db, .empty⟩ .nil where
  loads := .empty true
  canonical := trivial
  keys := by simp

section Stands
variable {C : Crypto} {t : Trie} {tree : HexTree}

lemma Stands.apart (h : Stands C t tree) (key : List UInt8) : tree.Apart (keybytesToHex key) := by
  intro k hk hcmp
  obtain ⟨key', rfl⟩ := h.keys k hk
  rcases hcmp with hcmp | hcmp
  · rw [keybytesToHex_prefix_free hcmp]
  · rw [keybytesToHex_prefix_free hcmp]

lemma Stands.ended (h : Stands C t tree) : Ended tree := by
  refine ended_of_keys h.canonical fun k hk => ?_
  obtain ⟨key, rfl⟩ := h.keys k hk
  exact ending_keybytesToHex key

lemma Stands.ne_value (h : Stands C t tree) (v : List UInt8) : tree ≠ .value v := by
  rintro rfl
  obtain ⟨key, hkey⟩ := h.keys [] (by simp)
  simp [keybytesToHex_eq] at hkey

/-- The entries determine the tree. -/
lemma Stands.ext (h : Stands C t tree) {t' : Trie} {tree' : HexTree} (h' : Stands C t' tree')
    (hentries : entries tree = entries tree') : tree = tree' := by
  apply h.canonical.ext h'.canonical
  intro k
  by_cases hk : ∃ key, k = keybytesToHex key
  · obtain ⟨key, rfl⟩ := hk
    exact congrFun hentries key
  · have hnone : tree.lookup k = none := by
      by_contra hne
      exact hk (h.keys k hne)
    have hnone' : tree'.lookup k = none := by
      by_contra hne
      exact hk (h'.keys k hne)
    rw [hnone, hnone']

lemma Node.fuel_le (n : Node) (k : List HexDigit) : 2 * k.length + n.cost ≤ 2 * k.length + 2 := by
  have := n.cost_le
  omega

/-! ## Calls -/

lemma Stands.tryGet (h : Stands C t tree) (key : List UInt8) :
    ∃ t', t.tryGet key = .ok (entries tree key, t') ∧ Stands C t' tree := by
  have hapart : tree.Apart ((keybytesToHex key).drop 0) := h.apart key
  have hfuel := t.root.fuel_le (keybytesToHex key)
  obtain ⟨n', didResolve, hget, hn'⟩ := h.loads.tryGet _ 0 h.canonical (Nat.zero_le _) hapart hfuel
  refine ⟨if didResolve then { t with root := n' } else t, ?_, ?_⟩
  · rw [Trie.tryGet]
    rw [hget]
    rfl
  · cases didResolve with
    | true => exact ⟨hn', h.canonical, h.keys⟩
    | false => exact h

lemma Stands.deleted (h : Stands C t tree) (key : List UInt8) {n' : Node}
    (hn' : Loads C t.db true n' (tree.delete (keybytesToHex key))) :
    Stands C { t with root := n' } (tree.delete (keybytesToHex key)) where
  loads := hn'
  canonical := h.canonical.delete _
  keys := by
    intro k hk
    rw [lookup_delete] at hk
    split at hk
    · exact absurd rfl hk
    · exact h.keys k hk

lemma Stands.inserted (h : Stands C t tree) (key value : List UInt8) {n' : Node}
    (hn' : Loads C t.db true n' (tree.insert (keybytesToHex key) value)) :
    Stands C { t with root := n' } (tree.insert (keybytesToHex key) value) where
  loads := hn'
  canonical := h.canonical.insert (h.apart key) value
  keys := by
    intro k hk
    rw [lookup_insert h.canonical (h.apart key)] at hk
    split at hk
    · next heq => exact ⟨key, heq⟩
    · exact h.keys k hk

lemma entries_update {tree' : HexTree} {key : List UInt8} {value : Option (List UInt8)}
    (h : ∀ k, tree'.lookup k = if k = keybytesToHex key then value else tree.lookup k) :
    entries tree' = Function.update (entries tree) key value := by
  funext key'
  rw [entries, h]
  by_cases hkey : key' = key
  · rw [hkey, if_pos rfl, update_self]
  · rw [if_neg fun h => hkey (keybytesToHex_injective h), update_of_ne hkey]
    rfl

lemma entries_delete (tree : HexTree) (key : List UInt8) :
    entries (tree.delete (keybytesToHex key)) = Function.update (entries tree) key none :=
  entries_update (lookup_delete _ _)

lemma Stands.entries_insert (h : Stands C t tree) (key value : List UInt8) :
    entries (tree.insert (keybytesToHex key) value) = Function.update (entries tree) key (some value) :=
  entries_update (lookup_insert h.canonical (h.apart key) value)

lemma Stands.tryDelete (h : Stands C t tree) (key : List UInt8) :
    ∃ t' tree', t.tryDelete key = .ok t' ∧ Stands C t' tree' ∧ entries tree' = Function.update (entries tree) key none := by
  have hfuel := t.root.fuel_le (keybytesToHex key)
  obtain ⟨dirty, n', hdelete, hn', -, -⟩ := h.loads.delete _ [] h.canonical h.ended (h.apart key) hfuel
  refine ⟨{ t with root := n' }, _, ?_, h.deleted key hn', entries_delete tree key⟩
  rw [Trie.tryDelete]
  rw [hdelete]
  rfl

/-- An empty value deletes. -/
def written (value : List UInt8) : Option (List UInt8) := if value = [] then none else some value

lemma Stands.tryInsert (h : Stands C t tree) (key : List UInt8) {value : List UInt8} (hvalue : value ≠ []) :
    ∃ dirty n', Node.insert t.db (2 * (keybytesToHex key).length + 2) t.root [] (keybytesToHex key) (.value value) =
        .ok (dirty, n') ∧ t.tryUpdate key value = .ok { t with root := n' } ∧
      Stands C { t with root := n' } (tree.insert (keybytesToHex key) value) := by
  have hfuel := t.root.fuel_le (keybytesToHex key)
  obtain ⟨dirty, n', hinsert, hn', -, -⟩ := h.loads.insert _ [] value h.canonical (h.apart key) hfuel
  refine ⟨dirty, n', hinsert, ?_, h.inserted key value hn'⟩
  rw [Trie.tryUpdate]
  rw [if_pos (by simpa using hvalue), hinsert]
  rfl

lemma Stands.tryUpdate (h : Stands C t tree) (key value : List UInt8) : ∃ t' tree', t.tryUpdate key value = .ok t' ∧
      Stands C t' tree' ∧ entries tree' = Function.update (entries tree) key (written value) := by
  by_cases hvalue : value = []
  · obtain ⟨t', tree', hdelete, hstands, hentries⟩ := h.tryDelete key
    refine ⟨t', tree', ?_, hstands, ?_⟩
    · rw [← hdelete, Trie.tryUpdate, hvalue]
      rfl
    · rw [hentries, written, if_pos hvalue]
  · obtain ⟨_, n', _, hupdate, hn'⟩ := h.tryInsert key hvalue
    refine ⟨{ t with root := n' }, _, hupdate, hn', ?_⟩
    rw [h.entries_insert, written, if_neg hvalue]

lemma Stands.hash (h : Stands C t tree) : ∃ t', t.hash C = .ok (treeRoot C tree, t') ∧ Stands C t' tree := by
  obtain ⟨t', hhash, hloads⟩ := hash_loads h.loads h.ended h.ne_value
  exact ⟨t', hhash, hloads, h.canonical, h.keys⟩

end Stands

/-! ## Runs -/

inductive Call
  | update (key value : List UInt8)
  | delete (key : List UInt8)
  | get (key : List UInt8)
  | hash

def call (C : Crypto) (t : Trie) : Call → Except TrieError Trie
  | .update key value => t.tryUpdate key value
  | .delete key => t.tryDelete key
  | .get key => do
    let (_, t) ← t.tryGet key
    return t
  | .hash => do
    let (_, t) ← t.hash C
    return t

def calls (C : Crypto) : Trie → List Call → Except TrieError Trie
  | t, [] => .ok t
  | t, c :: cs => do
    let t ← call C t c
    calls C t cs

/-- What a call does to a map. -/
def Call.apply (m : Entries) : Call → Entries
  | update key value => Function.update m key (written value)
  | delete key => Function.update m key none
  | get _ => m
  | hash => m

section Runs
variable {C : Crypto} {t : Trie} {tree : HexTree}

lemma Stands.call (h : Stands C t tree) (c : Call) :
    ∃ t' tree', call C t c = .ok t' ∧ Stands C t' tree' ∧ entries tree' = c.apply (entries tree) := by
  cases c with
  | update key value => exact h.tryUpdate key value
  | delete key => exact h.tryDelete key
  | get key =>
    obtain ⟨t', hget, ht'⟩ := h.tryGet key
    refine ⟨t', tree, ?_, ht', rfl⟩
    rw [Trie.call, hget]
    rfl
  | hash =>
    obtain ⟨t', hhash, ht'⟩ := h.hash
    refine ⟨t', tree, ?_, ht', rfl⟩
    rw [Trie.call, hhash]
    rfl

lemma Stands.calls (h : Stands C t tree) (cs : List Call) :
    ∃ t' tree', calls C t cs = .ok t' ∧ Stands C t' tree' ∧ entries tree' = cs.foldl Call.apply (entries tree) := by
  induction cs generalizing t tree with
  | nil => exact ⟨t, tree, rfl, h, rfl⟩
  | cons c cs ih =>
    obtain ⟨t₁, tree₁, hcall, h₁, hentries₁⟩ := h.call c
    obtain ⟨t', tree', hcalls, h', hentries'⟩ := ih h₁
    refine ⟨t', tree', ?_, h', ?_⟩
    · rw [Trie.calls, hcall]
      exact hcalls
    · rw [hentries', hentries₁, foldl_cons]

/-- After any calls, the entries are those of the map, and the tree and its hash are those
of every trie with the same entries. -/
theorem history_independent (h : Stands C t tree) (cs : List Call) :
    ∃ t' tree', calls C t cs = .ok t' ∧ Stands C t' tree' ∧
      (∀ tree'', Loads C t'.db true t'.root tree'' → tree'' = tree') ∧ tree'.Canonical ∧
      (∀ key, ∃ t'', t'.tryGet key = .ok (cs.foldl Call.apply (entries tree) key, t'')) ∧
      (∃ t'', t'.hash C = .ok (treeRoot C tree', t'')) ∧
      (∀ u utree ds, Stands C u utree → ds.foldl Call.apply (entries utree) = cs.foldl Call.apply (entries tree) →
        ∃ u' u'', calls C u ds = .ok u' ∧ Stands C u' tree' ∧ u'.hash C = .ok (treeRoot C tree', u'')) ∧
      ∀ key value, cs.foldl Call.apply (entries tree) key = none →
        ∃ u u', calls C t' [.update key value, .delete key] = .ok u ∧ Stands C u tree' ∧
          u.hash C = .ok (treeRoot C tree', u') := by
  obtain ⟨t', tree', hcalls, h', hentries⟩ := h.calls cs
  have hsame : ∀ u utree ds, Stands C u utree → ds.foldl Call.apply (entries utree) = entries tree' →
      ∃ u' u'', calls C u ds = .ok u' ∧ Stands C u' tree' ∧ u'.hash C = .ok (treeRoot C tree', u'') := by
    intro u utree ds hu hds
    obtain ⟨u', utree', hcalls', hu', hentries'⟩ := hu.calls ds
    have htree : utree' = tree' := hu'.ext h' (hentries'.trans hds)
    subst htree
    obtain ⟨u'', hhash, -⟩ := hu'.hash
    exact ⟨u', u'', hcalls', hu', hhash⟩
  refine ⟨t', tree', hcalls, h', fun _ hl => hl.unique h'.loads, h'.canonical, ?_, ?_, ?_, ?_⟩
  · intro key
    obtain ⟨t'', hget, -⟩ := h'.tryGet key
    exact ⟨t'', by rw [hget, hentries]⟩
  · obtain ⟨t'', hhash, -⟩ := h'.hash
    exact ⟨t'', hhash⟩
  · intro u utree ds hu hds
    exact hsame u utree ds hu (hds.trans hentries.symm)
  · -- the key was not there: putting it in and taking it out leaves the map
    intro key value hnone
    rw [← hentries] at hnone
    apply hsame t' tree' _ h'
    simp only [foldl_cons, foldl_nil, Call.apply, update_idem]
    rw [← hnone, update_eq_self]

/-- A key, another one that it begins, and the first one deleted by an empty value. -/
theorem longer_key_stays :
    Stands ⟨fun _ => 0, fun _ _ => none⟩ ⟨fun _ => none, .empty⟩ .nil ∧
      ∃ t', calls ⟨fun _ => 0, fun _ _ => none⟩ ⟨fun _ => none, .empty⟩
          [.update [1] [7], .update [1, 2] [8], .update [1] []] = .ok t' ∧
        (∃ t'', t'.tryGet [1, 2] = .ok (some [8], t'')) ∧ ∃ t'', t'.tryGet [1] = .ok (none, t'') := by
  have h := stands_empty ⟨fun _ => 0, fun _ _ => none⟩ fun _ => none
  refine ⟨h, ?_⟩
  obtain ⟨t', -, hcalls, -, -, -, hget, -⟩ :=
    history_independent h [.update [1] [7], .update [1, 2] [8], .update [1] []]
  exact ⟨t', hcalls, hget [1, 2], hget [1]⟩

end Runs

end TurboOctopus.Trie
