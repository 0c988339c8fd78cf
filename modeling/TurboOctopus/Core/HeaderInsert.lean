import TurboOctopus.Core.HeaderWrite
import TurboOctopus.Lib.Runs
/-!
# Inserting headers, all or nothing

An insert that fails should leave the chain answering as before. It does while it fails
before the headers are put into the caches. An insert that is interrupted later leaves
them in the caches, and one that finds a missing parent in `Reorg` has written them
already (`insert_all_or_nothing_iff`).
-/
namespace TurboOctopus.Core

open Lib List HeaderChain

variable {H κ : Type} [DecidableEq κ] {v : HeaderFields H κ} {db : HeaderDb H κ} {s t u : HeaderChain H κ}

/-! ## Back to the canonical chain -/

variable (v) in
/-- Going back from the header, one is missing before the canonical chain is reached. -/
inductive HeaderDb.Detached (db : HeaderDb H κ) : H → Prop
  | missing {h : H} (hcanonical : db.canonical.lookup (v.number h) ≠ some (v.hash h)) (hnumber : v.number h ≠ 0)
      (hparent : ∀ p, v.hash p = v.parentHash h → ¬ db.Stored v p) : db.Detached h
  | step {h p : H} (hcanonical : db.canonical.lookup (v.number h) ≠ some (v.hash h)) (hnumber : v.number h ≠ 0)
      (hparent : v.hash p = v.parentHash h) (hstored : db.Stored v p) (hp : db.Detached p) : db.Detached h

variable {batch : List (DbWrite H κ)} {externTd ptd : Nat} {first h last : H} {forker : ForkChoice H}
  {headers rest : List H}

/-- Storing headers above it does not help. -/
lemma HeaderDb.Detached.of_stored_iff {db' : HeaderDb H κ} {n : Nat} (hcanonical : db'.canonical = db.canonical)
    (hstored : ∀ p, (v.number p).toNat < n → (db'.Stored v p ↔ db.Stored v p)) (hd : db.Detached v h)
    (hh : (v.number h).toNat ≤ n) : db'.Detached v h := by
  have hlt : ∀ {h p : H}, v.hash p = v.parentHash h → (v.number h).toNat ≤ n → (v.number p).toNat < n := by
    intro h p hp hh
    have := v.number_parent h p hp
    omega
  induction hd with
  | missing hc hnum hp =>
    rw [← hcanonical] at hc
    refine .missing hc hnum fun p hhash => ?_
    rw [hstored p (hlt hhash hh)]
    exact hp p hhash
  | step hc hnum hhash hst _ ih =>
    rw [← hcanonical] at hc
    have hp := hlt hhash hh
    exact .step hc hnum hhash ((hstored _ hp).2 hst) (ih (Nat.le_of_lt hp))

/-- The call returns an error exactly if `D`. -/
def FailsIf {α : Type} (D : Prop) (r : EStateM.Result (HeaderStop κ) (HeaderChain H κ) α) (R : HeaderChain H κ → Prop)
    (Q : α → HeaderChain H κ → Prop) : Prop :=
  (D ∧ ∃ e t, r = .error (.err e) t ∧ R t) ∨ (¬ D ∧ ∃ a t, r = .ok a t ∧ Q a t)

/-- The write is to the canonical hashes. -/
def DbWrite.IsCanonical : DbWrite H κ → Prop
  | .td _ _ _ | .header _ => False
  | .canonicalHash _ _ | .deleteCanonicalHash _ => True

lemma HeaderChain.crossLink_succ (fuel : Nat) (header : H) (headHash : κ) (headNumber : UInt64)
    (batch : List (DbWrite H κ)) (s : HeaderChain H κ) :
    crossLink v (fuel + 1) header headHash headNumber batch s =
      if s.db.canonical.lookup headNumber = some headHash then .ok batch s
      else if headNumber = 0 then .ok (batch ++ [DbWrite.canonicalHash headHash headNumber]) s
      else
        match s.getHeader (v.parentHash header) (v.number header - 1) with
        | (none, s) => .error (.err (.missingParent (v.number header - 1) (v.parentHash header))) s
        | (some parent, s) =>
          crossLink v fuel parent (v.parentHash header) (v.number header - 1)
            (batch ++ [DbWrite.canonicalHash headHash headNumber]) s := rfl

/-- The walk finds a missing parent, or ends at the cross link. -/
lemma HeaderChain.Sound.crossLink (hs : s.Sound v) {fuel : Nat} (hfuel : (v.number h).toNat < fuel)
    (hbatch : ∀ w ∈ batch, w.IsCanonical) :
    FailsIf (s.db.Detached v h) (crossLink v fuel h (v.hash h) (v.number h) batch s) (s.Reads v)
      fun b t => s.Reads v t ∧ ∀ w ∈ b, w.IsCanonical := by
  induction fuel generalizing h batch s with
  | zero => omega
  | succ fuel ih =>
    have hbatch' : ∀ w ∈ batch ++ [DbWrite.canonicalHash (v.hash h) (v.number h)], w.IsCanonical :=
      forall_mem_append.2 ⟨hbatch, forall_mem_singleton.2 trivial⟩
    by_cases hcanonical : s.db.canonical.lookup (v.number h) = some (v.hash h)
    · refine .inr ⟨?_, batch, s, ?_, .refl hs, hbatch⟩
      · rintro (⟨hne, -, -⟩ | ⟨hne, -, -, -, -⟩) <;> exact hne hcanonical
      · rw [crossLink_succ, if_pos hcanonical]
    by_cases hzero : v.number h = 0
    · refine .inr ⟨?_, batch ++ [DbWrite.canonicalHash (v.hash h) (v.number h)], s, ?_, .refl hs, hbatch'⟩
      · rintro (⟨-, hne, -⟩ | ⟨-, hne, -, -, -⟩) <;> exact hne hzero
      · rw [crossLink_succ, if_neg hcanonical, if_pos hzero]
    have hreads := hs.getHeader (v.parentHash h) (v.number h - 1)
    rcases hget : s.getHeader (v.parentHash h) (v.number h - 1) with ⟨_ | p, t⟩
    · -- no parent
      rw [hget] at hreads
      refine .inl ⟨.missing hcanonical hzero fun p hp hst => ?_,
        .missingParent (v.number h - 1) (v.parentHash h), t, ?_, hreads⟩
      · have hfound := hs.getHeader_parent.2 ⟨hp, hst⟩
        rw [hget] at hfound
        cases hfound
      · rw [crossLink_succ, if_neg hcanonical, if_neg hzero, hget]
    · rw [hget] at hreads
      obtain ⟨hp, hst⟩ := hs.getHeader_parent.1 (congrArg Prod.fst hget)
      have hlt : (v.number p).toNat < fuel := by
        have := v.number_parent h p hp
        omega
      have hdetached : s.db.Detached v h ↔ t.db.Detached v p := by
        rw [hreads.db]
        refine ⟨?_, fun hd => .step hcanonical hzero hp hst hd⟩
        rintro (⟨-, -, hno⟩ | @⟨_, q, -, -, hq, -, hd⟩)
        · exact absurd hst (hno p hp)
        · rwa [v.hash_inj p q (hp.trans hq.symm)]
      have hstep : crossLink v (fuel + 1) h (v.hash h) (v.number h) batch s =
          crossLink v fuel p (v.hash p) (v.number p)
            (batch ++ [DbWrite.canonicalHash (v.hash h) (v.number h)]) t := by
        rw [crossLink_succ, if_neg hcanonical, if_neg hzero, hget, hp, v.number_sub_one hp]
      rw [hstep, hdetached]
      rcases ih hreads.sound hlt hbatch' with ⟨hd, e, u, heq, hu⟩ | ⟨hd, b, u, heq, hu, hb⟩
      · exact .inl ⟨hd, e, u, heq, hreads.trans hu⟩
      · exact .inr ⟨hd, b, u, heq, hreads.trans hu, hb⟩

/-! ## The head -/

lemma HeaderChain.Sound.unlink (hs : s.Sound v) (first last : H) :
    FailsIf (v.parentHash first ≠ s.currentHeaderHash ∧ s.db.Detached v first) (unlink v first last s)
      (s.Reads v) fun b t => s.Reads v t ∧ ∀ w ∈ b, w.IsCanonical := by
  unfold HeaderChain.unlink
  by_cases hparent : v.parentHash first = s.currentHeaderHash
  · rw [if_pos hparent]
    exact .inr ⟨fun h => h.1 hparent, [], s, rfl, .refl hs, by simp⟩
  · have hdelete : ∀ w ∈ (s.db.assignedFrom (v.number last + 1)).map DbWrite.deleteCanonicalHash,
        (w : DbWrite H κ).IsCanonical := by
      exact forall_mem_map.2 fun _ _ => trivial
    rw [if_neg hparent]
    simpa [hparent] using hs.crossLink (Nat.lt_succ_self _) hdelete

lemma HeaderDb.write_canonical (hb : ∀ w ∈ batch, w.IsCanonical) (db : HeaderDb H κ) : (db.write v batch).headers =
      db.headers ∧ (db.write v batch).tds = db.tds ∧ (db.write v batch).numbers = db.numbers := by
  induction batch generalizing db with
  | nil => exact ⟨rfl, rfl, rfl⟩
  | cons w batch ih =>
    have hput : (db.put v w).headers = db.headers ∧ (db.put v w).tds = db.tds ∧ (db.put v w).numbers = db.numbers := by
      cases w with
      | td | header => exact (hb _ mem_cons_self).elim
      | canonicalHash | deleteCanonicalHash => exact ⟨rfl, rfl, rfl⟩
    obtain ⟨h1, h2, h3⟩ := ih (fun w hw => hb w (mem_cons_of_mem _ hw)) (db.put v w)
    exact ⟨h1.trans hput.1, h2.trans hput.2.1, h3.trans hput.2.2⟩

omit [DecidableEq κ] in
lemma HeaderFields.isCanonical_extension (headers : List H) : ∀ w ∈ v.extension headers, w.IsCanonical := by
  induction headers with
  | nil => simp [HeaderFields.extension]
  | cons h rest ih => exact forall_mem_cons.2 ⟨trivial, ih⟩

namespace HeaderChain

lemma Sound.rehead (hs : s.Sound v) (hlast : s.db.Stored v last) (hb : ∀ w ∈ batch, w.IsCanonical) :
    { s with db := s.db.write v batch, currentHeader := last, currentHeaderHash := v.hash last }.Sound v := by
  obtain ⟨hheaders, htds, hnumbers⟩ := HeaderDb.write_canonical (v := v) hb s.db
  have hstored : ∀ h, (s.db.write v batch).Stored v h ↔ s.db.Stored v h := by
    intro h
    rw [HeaderDb.Stored, hheaders]
    rfl
  refine ⟨⟨?_, ?_, ?_, ?_⟩, ?_, ?_, ?_, (hstored last).2 hlast, rfl⟩
  · rw [hheaders]
    exact hs.db.header
  · rw [hheaders, hnumbers]
    exact hs.db.number
  · rw [htds]
    exact hs.db.td
  · intro h hh
    rw [htds]
    exact hs.db.td_of_stored h ((hstored h).1 hh)
  · intro k h hh
    obtain ⟨hk, hst⟩ := hs.header k h hh
    exact ⟨hk, (hstored h).2 hst⟩
  · intro k td htd
    rw [HeaderDb.HoldsTd, htds]
    exact hs.td k td htd
  · intro k n hn
    rw [HeaderDb.HoldsNumber, hnumbers]
    exact hs.number k n hn

lemma Sound.reorg (hs : s.Sound v)
    (hfirst : headers.head? = some first) (hlast : headers.getLast? = some last) (hstored : s.db.Stored v last) :
    FailsIf (v.parentHash first ≠ s.currentHeaderHash ∧ s.db.Detached v first) (reorg v headers s)
      (s.Reads v) fun _ t => t.Sound v := by
  unfold HeaderChain.reorg
  rw [hfirst, hlast]
  rcases hs.unlink first last with ⟨hd, e, t, heq, ht⟩ | ⟨hd, b, t, heq, ht, hb⟩
  · exact .inl ⟨hd, e, t, run_bind_of_error heq, ht⟩
  · refine .inr ⟨hd, (), _, run_bind_of_ok heq, ?_⟩
    exact ht.sound.rehead (by rw [ht.db]; exact hstored)
      (forall_mem_append.2 ⟨hb, HeaderFields.isCanonical_extension headers⟩)

/-- The fork choice decides on the total difficulties of the two chains, which are known. -/
lemma Sound.reorgNeeded (hs : s.Sound v) (hlast : s.db.Stored v last) (forker : ForkChoice H) : ∃ t, s.Reads v t ∧
      forker.reorgNeeded v s.currentHeader last s =
      .ok (forker.prefers v (v.total (v.hash s.currentHeader)) (v.total (v.hash last)) s.currentHeader last) t := by
  have htd : ∀ {t : HeaderChain H κ} {h : H}, t.Sound v → t.db.Stored v h →
      ∃ u, t.Reads v u ∧ t.getTd (v.hash h) (v.number h) = (some (v.total (v.hash h)), u) := by
    intro t h ht hh
    refine ⟨_, ht.getTd (v.hash h) (v.number h), Prod.ext ?_ rfl⟩
    rw [ht.getTd_eq]
    exact ht.db.td_of_stored h hh
  obtain ⟨t, ht, hcurrent⟩ := htd hs hs.current
  obtain ⟨u, hu, hextern⟩ := htd ht.sound (by rw [ht.db]; exact hlast)
  refine ⟨u, ht.trans hu, ?_⟩
  simp only [ForkChoice.reorgNeeded, hcurrent, hextern]

variable (v) in
/-- The fork choice asks for a reorg to the headers, whose total difficulty this is, and
they neither are canonical nor follow the current header. -/
def Switches (s : HeaderChain H κ) (forker : ForkChoice H) (first last : H) (externTd : Nat) : Prop :=
  (∃ localTD, (s.getTd (v.hash s.currentHeader) (v.number s.currentHeader)).1 = some localTD ∧
    forker.prefers v localTD externTd s.currentHeader last = true) ∧
  ¬ (s.getCanonicalHash (v.number last) = some (v.hash last) ∧ v.number last ≤ v.number s.currentHeader) ∧
  v.parentHash first ≠ s.currentHeaderHash

lemma Sound.switches_iff (hs : s.Sound v) : s.Switches v forker first last externTd ↔
      forker.prefers v (v.total (v.hash s.currentHeader)) externTd s.currentHeader last = true ∧
      ¬ (s.db.canonical.lookup (v.number last) = some (v.hash last) ∧ v.number last ≤ v.number s.currentHeader) ∧
      v.parentHash first ≠ v.hash s.currentHeader := by
  have hlocal : (s.getTd (v.hash s.currentHeader) (v.number s.currentHeader)).1 =
      some (v.total (v.hash s.currentHeader)) := by
    rw [hs.getTd_eq]
    exact hs.db.td_of_stored _ hs.current
  unfold HeaderChain.Switches getCanonicalHash
  simp only [hlocal, Option.some.injEq, exists_eq_left', hs.currentHash]

/-- What becomes of the head is decided by the total difficulties and the canonical hash. -/
lemma Sound.setHead_eq (hs : s.Sound v)
    (hlast : headers.getLast? = some last) (hstored : s.db.Stored v last) (forker : ForkChoice H) (inserted : Nat) :
    ∃ t, s.Reads v t ∧ setHead v headers forker inserted s =
      if forker.prefers v (v.total (v.hash s.currentHeader)) (v.total (v.hash last)) s.currentHeader last = true then
        if s.db.canonical.lookup (v.number last) = some (v.hash last) ∧ v.number last ≤ v.number s.currentHeader then
          .ok .nonStatTy t
        else (HeaderChain.reorg v headers >>= fun _ => pure .canonStatTy) t
      else .ok (if inserted ≠ 0 then .sideStatTy else .nonStatTy) t := by
  obtain ⟨t, ht, hneeded⟩ := hs.reorgNeeded hstored forker
  have hrun : setHead v headers forker inserted s =
      if forker.prefers v (v.total (v.hash s.currentHeader)) (v.total (v.hash last)) s.currentHeader last = true then
        if t.getCanonicalHash (v.number last) = some (v.hash last) ∧ v.number last ≤ v.number t.currentHeader then
          .ok .nonStatTy t
        else (HeaderChain.reorg v headers >>= fun _ => pure .canonStatTy) t
      else .ok (if inserted ≠ 0 then .sideStatTy else .nonStatTy) t := by
    unfold setHead
    rw [hlast]
    refine (run_bind_of_ok hneeded).trans ?_
    cases forker.prefers v (v.total (v.hash s.currentHeader)) (v.total (v.hash last)) s.currentHeader last with
    | false => rfl
    | true =>
      rw [if_pos rfl]
      exact run_ite (c := t.getCanonicalHash (v.number last) = some (v.hash last) ∧ _) _ _ t
  refine ⟨t, ht, hrun.trans ?_⟩
  rw [getCanonicalHash, ht.db, ht.currentHeader]

/-- With the headers written, only a missing parent is an error. -/
lemma Sound.setHead (hs : s.Sound v)
    (hfirst : headers.head? = some first) (hlast : headers.getLast? = some last) (hstored : s.db.Stored v last)
    (forker : ForkChoice H) (inserted : Nat) :
    FailsIf (s.Switches v forker first last (v.total (v.hash last)) ∧ s.db.Detached v first)
      (setHead v headers forker inserted s) (s.Reads v) fun _ t => t.Sound v := by
  obtain ⟨t, ht, hrun⟩ := hs.setHead_eq hlast hstored forker inserted
  rw [hrun, hs.switches_iff]
  split
  next hprefers =>
    split
    next hcanonical => exact .inr ⟨fun h => h.1.2.1 hcanonical, .nonStatTy, t, rfl, ht.sound⟩
    next hcanonical =>
      have hreorg := ht.sound.reorg hfirst hlast (by rw [ht.db]; exact hstored)
      rw [ht.sound.currentHash, ht.currentHeader, ht.db] at hreorg
      rcases hreorg with ⟨hd, e, u, heq, hu⟩ | ⟨hd, b, u, heq, hu⟩
      · exact .inl ⟨⟨⟨hprefers, hcanonical, hd.1⟩, hd.2⟩, e, u, run_bind_of_error heq, ht.trans hu⟩
      · exact .inr ⟨fun h => hd ⟨h.1.2.2, h.2⟩, .canonStatTy, u, run_bind_of_ok heq, hu⟩
  next hprefers => exact .inr ⟨fun h => hprefers h.1.1, _, t, rfl, ht.sound⟩

/-! ## The genesis block -/

variable (v) in
/-- The chain of a genesis block. -/
def genesis (g : H) : HeaderChain H κ where
  db := ((⟨∅, ∅, ∅, ∅⟩ : HeaderDb H κ).store v g).write v [.canonicalHash (v.hash g) (v.number g)]
  currentHeader := g
  currentHeaderHash := v.hash g
  headerCache := .empty
  tdCache := .empty
  numberCache := .empty

lemma Sound.genesis (g : H) : (genesis v g).Sound v := by
  have hempty : (⟨∅, ∅, ∅, ∅⟩ : HeaderDb H κ).Sound v := by
    constructor
    · intro n k h hh
      cases hh
    · intro k n
      exact ⟨fun h => (nomatch h), fun ⟨_, h⟩ => (nomatch h)⟩
    · intro n k td htd
      cases htd
    · intro h hh
      cases hh
  have hstored : ((⟨∅, ∅, ∅, ∅⟩ : HeaderDb H κ).store v g).Stored v g := (HeaderDb.stored_store_iff _ g g).2 (.inl rfl)
  have hs : HeaderChain.Sound v ⟨(⟨∅, ∅, ∅, ∅⟩ : HeaderDb H κ).store v g, g, v.hash g, .empty, .empty, .empty⟩ :=
    ⟨hempty.store g, .empty, .empty, .empty, hstored, rfl⟩
  refine hs.rehead hstored fun w hw => ?_
  rw [mem_singleton.1 hw]
  trivial

/-! ## All or nothing -/

variable (v) in
/-- The insert fails after headers that are not known were cached, and the caches still
hold one, or after such headers were stored. -/
def Breaks (s : HeaderChain H κ) (chain : List H) (forker : ForkChoice H) (before during : Bool) : Prop :=
  before = false ∧ ∃ first last ptd, chain.head? = some first ∧ chain.getLast? = some last ∧
    (s.getTd (v.parentHash first) (v.number first - 1)).1 = some ptd ∧
    ((during = true ∧ ∃ h ∈ chain.drop (chain.length - numberCacheLimit), s.hasHeader (v.hash h) (v.number h) = false) ∨
    (during = false ∧ (∃ h ∈ chain, s.hasHeader (v.hash h) (v.number h) = false) ∧
      s.Switches v forker first last (ptd + (chain.map v.difficulty).sum) ∧ s.db.Detached v first))

/-- Of the last headers one is not known, if one of the last fresh ones is not. -/
lemma exists_unknown_iff (s : HeaderChain H κ) (headers : List H) (n : Nat) :
    (∃ h ∈ headers.drop (headers.length - n), s.hasHeader (v.hash h) (v.number h) = false) ↔
      ∃ h ∈ (s.fresh v headers).drop ((s.fresh v headers).length - n), s.hasHeader (v.hash h) (v.number h) = false := by
  obtain ⟨known, hsplit, hknown⟩ := s.exists_append_fresh (v := v) headers
  have hlen : headers.length = known.length + (s.fresh v headers).length := by
    rw [← length_append, ← hsplit]
  have hdrop : headers.drop (headers.length - n) =
      known.drop (headers.length - n) ++ (s.fresh v headers).drop ((s.fresh v headers).length - n) := by
    have hsub : headers.length - n - known.length = (s.fresh v headers).length - n := by omega
    rw [← hsub, ← drop_append, ← hsplit]
  rw [hdrop]
  constructor
  · rintro ⟨h, hh, hunknown⟩
    rcases mem_append.1 hh with hh | hh
    · rw [hknown h (mem_of_mem_drop hh)] at hunknown
      cases hunknown
    · exact ⟨h, hh, hunknown⟩
  · rintro ⟨h, hh, hunknown⟩
    exact ⟨h, mem_append_right _ hh, hunknown⟩

lemma exists_unknown_iff_fresh (s : HeaderChain H κ) (headers : List H) :
    (∃ h ∈ headers, s.hasHeader (v.hash h) (v.number h) = false) ↔ s.fresh v headers ≠ [] := by
  unfold fresh
  rw [ne_eq, dropWhile_eq_nil_iff]
  simp

section
variable (hs : s.Sound v)
include hs

/-- Interrupted before the batch is written, the insert leaves the caches filled. -/
lemma Sound.same_of_interrupted (ht : s.Reads v t) (hc : v.Contiguous headers) :
    s.Same v (t.cacheAll v (t.fresh v headers)) ↔
      ¬ ∃ h ∈ headers.drop (headers.length - numberCacheLimit), s.hasHeader (v.hash h) (v.number h) = false := by
  have hsame := ht.same hs
  have hiff : s.Same v (t.cacheAll v (t.fresh v headers)) ↔ t.Same v (t.cacheAll v (t.fresh v headers)) :=
    ⟨hsame.symm.trans, hsame.trans⟩
  rw [hiff, ht.sound.same_cacheAll_iff hc.fresh]
  simp only [hsame.hasHeader]
  rw [t.exists_unknown_iff]
  simp only [← ht.sound.hasHeader_iff, not_exists, not_and, Bool.not_eq_false]

/-- The headers are stored, so the chain answers as before if it knew them. -/
lemma Sound.same_of_written (ht : s.Reads v t) (hu : (t.written v (t.fresh v headers)).Reads v u) :
    s.Same v u ↔ ¬ ∃ h ∈ headers, s.hasHeader (v.hash h) (v.number h) = false := by
  constructor
  · rintro hsame ⟨h, hh, hunknown⟩
    have hmem : h ∈ t.fresh v headers := by
      obtain ⟨known, hsplit, hknown⟩ := t.exists_append_fresh (v := v) headers
      rw [hsplit] at hh
      refine (mem_append.1 hh).resolve_left fun hk => ?_
      rw [(ht.same hs).hasHeader h, hknown h hk] at hunknown
      cases hunknown
    have hstored : u.db.Stored v h := by
      rw [hu.db]
      exact ((ht.sound.db.storeAll _).2.2.1 h).2 (.inl hmem)
    rw [hsame.hasHeader h, (hu.sound.hasHeader_iff h).2 hstored] at hunknown
    cases hunknown
  · intro hknown
    simp only [(ht.same hs).hasHeader] at hknown
    rw [t.exists_unknown_iff_fresh, not_not] at hknown
    rw [hknown] at hu
    exact (ht.same hs).trans (ht.sound.same hu.sound hu.db hu.currentHeader)

/-- What a reorg to the headers meets is the same when they are written: they are all
above the parent of the first. -/
lemma Sound.detached_written (hc : v.Contiguous (first :: rest)) :
    (s.written v (s.fresh v (first :: rest))).db.Detached v first ↔ s.db.Detached v first := by
  obtain ⟨-, -, hstored, hcanonical⟩ := hs.db.storeAll (s.fresh v (first :: rest))
  have hbelow : ∀ p, (v.number p).toNat < (v.number first).toNat →
      ((s.written v (s.fresh v (first :: rest))).db.Stored v p ↔ s.db.Stored v p) := by
    intro p hp
    refine (hstored p).trans (or_iff_right fun hmem => ?_)
    rcases mem_cons.1 ((dropWhile_suffix _).subset hmem) with rfl | hrest
    · omega
    · have := (pairwise_cons.1 hc.ascending).1 p hrest
      omega
  constructor
  · intro hd
    exact hd.of_stored_iff hcanonical.symm (fun p hp => (hbelow p hp).symm) (le_refl _)
  · intro hd
    exact hd.of_stored_iff hcanonical hbelow (le_refl _)

lemma Sound.switches_written (hc : v.Contiguous headers) (forker : ForkChoice H) (externTd : Nat) :
    (s.written v (s.fresh v headers)).Switches v forker first last externTd ↔
      s.Switches v forker first last externTd := by
  obtain ⟨-, -, -, hcanonical⟩ := hs.db.storeAll (s.fresh v headers)
  have hcanonical' : (s.written v (s.fresh v headers)).db.canonical = s.db.canonical := hcanonical
  rw [hs.switches_iff, (hs.written hc.fresh).switches_iff, hcanonical']
  rfl

lemma Reads.switches_iff (ht : s.Reads v t)
    : t.Switches v forker first last externTd ↔ s.Switches v forker first last externTd := by
  rw [hs.switches_iff, ht.sound.switches_iff, ht.db, ht.currentHeader]

lemma Sound.stored_written (hh : h ∈ headers) : (s.written v (s.fresh v headers)).db.Stored v h := by
  obtain ⟨known, hsplit, hknown⟩ := s.exists_append_fresh (v := v) headers
  rw [hsplit] at hh
  refine ((hs.db.storeAll (s.fresh v headers)).2.2.1 h).2 ?_
  rcases mem_append.1 hh with hk | hf
  · exact .inr ((hs.hasHeader_iff h).1 (hknown h hk))
  · exact .inl hf

/-- What an insert does that is not interrupted and knows the parent's total difficulty. -/
lemma Sound.insert_written
    (hc : v.Contiguous (first :: rest)) (hlast : (first :: rest).getLast? = some last)
    (htd : (s.getTd (v.parentHash first) (v.number first - 1)).1 = some ptd) (forker : ForkChoice H) :
    ∃ t, s.Reads v t ∧
      FailsIf (s.Switches v forker first last (ptd + ((first :: rest).map v.difficulty).sum) ∧ s.db.Detached v first)
        (insertHeaderChain v (first :: rest) forker false false s)
        ((t.written v (t.fresh v (first :: rest))).Reads v) fun _ u => u.Sound v := by
  obtain ⟨t, ht, heq⟩ := hs.writeHeaders_eq hc htd
  have hsound := ht.sound.written (hc.fresh (s := t))
  have hstored := ht.sound.stored_written (mem_of_getLast? hlast)
  have hhead := hsound.setHead rfl hlast hstored forker (t.fresh v (first :: rest)).length
  rw [ht.sound.switches_written hc, ht.sound.detached_written hc, ht.switches_iff hs, ht.db, hc.total hlast,
    ← hs.total_of_getTd htd] at hhead
  refine ⟨t, ht, ?_⟩
  have hrun : insertHeaderChain v (first :: rest) forker false false s =
      HeaderChain.setHead v (first :: rest) forker (t.fresh v (first :: rest)).length
        (t.written v (t.fresh v (first :: rest))) := run_bind_of_ok (heq false)
  rw [hrun]
  exact hhead

end

variable (v) in
lemma breaks_iff (hlast : (first :: rest).getLast? = some last)
    (htd : (s.getTd (v.parentHash first) (v.number first - 1)).1 = some ptd) (forker : ForkChoice H)
    (during : Bool) :
    s.Breaks v (first :: rest) forker false during ↔
      (during = true ∧ ∃ h ∈ (first :: rest).drop ((first :: rest).length - numberCacheLimit),
        s.hasHeader (v.hash h) (v.number h) = false) ∨
      (during = false ∧ (∃ h ∈ first :: rest, s.hasHeader (v.hash h) (v.number h) = false) ∧
        s.Switches v forker first last (ptd + ((first :: rest).map v.difficulty).sum) ∧ s.db.Detached v first) := by
  constructor
  · rintro ⟨-, first', last', ptd', hfirst', hlast', htd', h⟩
    cases hfirst'
    cases hlast.symm.trans hlast'
    cases htd.symm.trans htd'
    exact h
  · intro h
    exact ⟨rfl, first, last, ptd, rfl, hlast, htd, h⟩

end HeaderChain

omit [DecidableEq κ] in
lemma forall_error_iff {α : Type} {r : EStateM.Result (HeaderStop κ) (HeaderChain H κ) α} {e : HeaderError κ}
    (hr : r = .error (.err e) t) {P : HeaderChain H κ → Prop} : (∀ e t, r = .error (.err e) t → P t) ↔ P t := by
  constructor
  · intro h
    exact h e t hr
  · intro ht e' t' h
    cases hr.symm.trans h
    exact ht

lemma HeaderChain.Sound.insert_interrupted (hs : s.Sound v) (hc : v.Contiguous (first :: rest))
    (htd : (s.getTd (v.parentHash first) (v.number first - 1)).1 = some ptd) (forker : ForkChoice H) :
    ∃ t, s.Reads v t ∧ insertHeaderChain v (first :: rest) forker false true s =
      .error (.err .aborted) (t.cacheAll v (t.fresh v (first :: rest))) := by
  obtain ⟨t, ht, heq⟩ := hs.writeHeaders_eq hc htd
  exact ⟨t, ht, run_bind_of_error (heq true)⟩

lemma HeaderChain.insert_unknownAncestor (htd : (s.getTd (v.parentHash first) (v.number first - 1)).1 = none)
    (forker : ForkChoice H) (during : Bool) :
    insertHeaderChain v (first :: rest) forker false during s = .error (.err .unknownAncestor) s :=
  run_bind_of_error (writeHeaders_unknownAncestor htd)

lemma HeaderChain.Sound.inserted {chain : List H} {forker : ForkChoice H} {before during : Bool} (hs : s.Sound v)
    (hc : v.Contiguous chain) (hknown : during = true →
      ¬ ∃ h ∈ chain.drop (chain.length - numberCacheLimit), s.hasHeader (v.hash h) (v.number h) = false) :
    (stateOf (HeaderChain.insertHeaderChain v chain forker before during s)).Sound v := by
  cases before with
  | true => exact hs
  | false =>
    cases chain with
    | nil => exact hs
    | cons first rest =>
      cases htd : (s.getTd (v.parentHash first) (v.number first - 1)).1 with
      | none =>
        rw [insert_unknownAncestor htd forker during]
        exact hs
      | some ptd =>
        cases during with
        | true =>
          obtain ⟨t, ht, hrun⟩ := hs.insert_interrupted hc htd forker
          have hsame := (hs.same_of_interrupted ht hc).2 (hknown rfl)
          rw [hrun]
          refine ht.sound.cacheAll hc.fresh ?_
          exact (ht.sound.same_cacheAll_iff hc.fresh).1 ((ht.same hs).symm.trans hsame)
        | false =>
          -- A switch that fails comes after a write that is complete.
          obtain ⟨t, ht, ⟨-, e, u, hrun, hu⟩ | ⟨-, status, u, hrun, hu⟩⟩ := hs.insert_written hc getLast?_cons htd forker
          · rw [hrun]
            exact hu.sound
          · rw [hrun]
            exact hu

/-- An insert that fails leaves the chain answering as before, except where it was
interrupted with headers in the caches that are not stored, or met a missing parent with
such headers stored. -/
theorem insert_all_or_nothing_iff (hs : s.Sound v) {chain : List H} (hc : v.Contiguous chain) (forker : ForkChoice H)
    (before during : Bool) :
    (∀ e t, HeaderChain.insertHeaderChain v chain forker before during s = .error (.err e) t → s.Same v t) ↔
      ¬ s.Breaks v chain forker before during := by
  have hrefl : s.Same v s := (HeaderChain.Reads.refl hs).same hs
  cases before with
  | true =>
    have hrun : HeaderChain.insertHeaderChain v chain forker true during s = .error (.err .aborted) s := rfl
    rw [forall_error_iff hrun]
    refine iff_of_true hrefl ?_
    rintro ⟨hbefore, -⟩
    cases hbefore
  | false =>
    cases chain with
    | nil =>
      refine iff_of_true ?_ ?_
      · intro e t hrun
        cases hrun
      · rintro ⟨-, first, -, -, hfirst, -⟩
        cases hfirst
    | cons first rest =>
      obtain ⟨last, hlast⟩ : ∃ last, (first :: rest).getLast? = some last := ⟨_, getLast?_cons⟩
      cases htd : (s.getTd (v.parentHash first) (v.number first - 1)).1 with
      | none =>
        rw [forall_error_iff (HeaderChain.insert_unknownAncestor htd forker during)]
        refine iff_of_true hrefl ?_
        rintro ⟨-, first', -, ptd, hfirst, -, htd', -⟩
        cases hfirst
        cases htd.symm.trans htd'
      | some ptd =>
        rw [HeaderChain.breaks_iff v hlast htd]
        cases during with
        | true =>
          obtain ⟨t, ht, hrun⟩ := hs.insert_interrupted hc htd forker
          rw [forall_error_iff hrun, hs.same_of_interrupted ht hc]
          simp only [true_and, Bool.true_eq_false, false_and, or_false]
        | false =>
          obtain ⟨t, ht, hfails⟩ := hs.insert_written hc hlast htd forker
          rcases hfails with ⟨hd, e, u, hrun, hu⟩ | ⟨hd, status, u, hrun, -⟩
          · rw [forall_error_iff hrun, hs.same_of_written ht hu]
            simp only [Bool.false_eq_true, false_and, true_and, false_or, hd, and_true]
          · refine iff_of_true ?_ ?_
            · intro e t herr
              cases hrun.symm.trans herr
            · rintro (⟨hduring, -⟩ | ⟨-, -, hd'⟩)
              · cases hduring
              · exact hd hd'

/-- A genesis block and a block on top of it. -/
def twoHeaders : HeaderFields (Fin 2) Nat where
  hash h := h.val + 1
  parentHash h := h.val
  number h := h.val.toUInt64
  difficulty _ := 1
  total k := k
  hash_inj := by decide
  number_parent := by decide
  total_hash := by decide

/-- The fork choice by the total difficulty alone. -/
def byTd {n : Nat} : ForkChoice (Fin n) := ⟨none, none, false⟩

/-- The second block is inserted again, and the writing is interrupted. -/
theorem refused_insert_same : ∃ s t, stateOf (HeaderChain.insertHeaderChain twoHeaders [1] byTd false false
      (.genesis twoHeaders 0)) = s ∧
    HeaderChain.insertHeaderChain twoHeaders [1] byTd false true s = .error (.err .aborted) t ∧ s.Same twoHeaders t := by
  have hs : (stateOf (HeaderChain.insertHeaderChain twoHeaders [1] byTd false false (.genesis twoHeaders 0))).Sound twoHeaders :=
    HeaderChain.Sound.inserted (.genesis 0) (.singleton 1) nofun
  refine ⟨_, _, rfl, rfl, (insert_all_or_nothing_iff hs (.singleton 1) byTd false true).2 ?_ _ _ rfl⟩
  rintro ⟨-, -, -, -, -, -, -, ⟨-, h, hh, hnew⟩ | ⟨hduring, -⟩⟩
  · obtain rfl := mem_singleton.1 hh
    revert hnew
    decide +kernel
  · cases hduring

/-- The insert of the second block is interrupted. The block is known afterwards, and the
next insert makes it the head without storing it. -/
theorem aborted_insert_known : (HeaderChain.genesis twoHeaders 0).Sound twoHeaders ∧ twoHeaders.Contiguous [1] ∧
    ∃ t u, HeaderChain.insertHeaderChain twoHeaders [1] byTd false true (.genesis twoHeaders 0) =
        .error (.err .aborted) t ∧
      (HeaderChain.genesis twoHeaders 0).hasHeader 2 1 = false ∧ t.hasHeader 2 1 = true ∧
      ¬ (HeaderChain.genesis twoHeaders 0).Same twoHeaders t ∧
      HeaderChain.insertHeaderChain twoHeaders [1] byTd false false t = .ok .canonStatTy u ∧
      u.currentHeader = 1 ∧ u.db.headers.lookup (1, 2) = none := by
  refine ⟨.genesis 0, .singleton 1, _, _, rfl, by decide +kernel, by decide +kernel, ?_, rfl, rfl, by decide +kernel⟩
  intro hsame
  have h := hsame.hasHeader 1
  revert h
  decide +kernel

/-! ## Inserts in a row -/

/-- A call of `InsertHeaderChain`. -/
structure HeaderInsert (H : Type) where
  chain : List H
  forker : ForkChoice H
  before : Bool
  during : Bool

/-- The chain stays sound unless the writing of new headers is interrupted. -/
theorem inserts_sound {g : H} {is : List (HeaderInsert H)} (hrun : Run (fun s i t => v.Contiguous i.chain ∧ (i.during = true →
      ¬ ∃ h ∈ i.chain.drop (i.chain.length - numberCacheLimit), s.hasHeader (v.hash h) (v.number h) = false) ∧
      t = stateOf (HeaderChain.insertHeaderChain v i.chain i.forker i.before i.during s)) (genesis v g) is s) : s.Sound v := by
  apply hrun.inv (fun s => s.Sound v) (.genesis g)
  rintro s i t hs ⟨hc, hknown, rfl⟩
  exact hs.inserted hc hknown

theorem inserts_sound_one :
    (stateOf (HeaderChain.insertHeaderChain twoHeaders [1] byTd false false (.genesis twoHeaders 0))).Sound twoHeaders :=
  inserts_sound (.cons (e := HeaderInsert.mk [1] byTd false false) ⟨.singleton 1, nofun, rfl⟩ (.nil _))

end TurboOctopus.Core
