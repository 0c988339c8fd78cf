import TurboOctopus.Lib.Logs
import TurboOctopus.Eth.Dispatcher
/-!
# What the dispatcher delivers

A pending request is one that was sent and has no answer yet, so a response that is
accepted is the only one of its request, whatever happens to it afterwards. That it is
not offered after a cancellation is because the reader looks at the `cancel` channel
first, and `Close` returns after closing it.
-/
namespace TurboOctopus.Eth

open Lib Function List

section
variable {ι γ ρ σ : Type}
variable {req : ι → PeerRequest σ} {closeOf : γ → ι} {res : ρ → PeerResponse} {s t : Dispatch ι γ ρ σ}

/-- A response was accepted for the request. -/
def Dispatch.Answered (s : Dispatch ι γ ρ σ) (r : ι) : Prop := ∃ p, (s.responses p).bound = some r

variable (req res) in
/-- A request is sent once, is pending without an answer from then on, and is not pending
when it has one: only in between, where the dispatcher is about to forget it, it is both. -/
structure Dispatch.Tracks (s : Dispatch ι γ ρ σ) : Prop where
  sent : ∀ r, .sent r ∈ s.log → ∃ err, s.requests r = .returned err
  sending : ∀ r, s.dispatcher = .sending r → s.requests r = .waiting
  tracking : ∀ r, s.dispatcher = .tracking r → .sent r ∈ s.log ∧ ¬ s.Answered r
  answering : ∀ p, s.dispatcher = .answering p → s.responses p = .waiting
  pending : ∀ id r, s.pending.lookup id = some r → (req r).id = id ∧ .sent r ∈ s.log ∧
    (s.dispatcher ≠ .untracking id → ¬ s.Answered r)
  answered : ∀ p r, (s.responses p).bound = some r →
    .sent r ∈ s.log ∧ (req r).id = (res p).id ∧ (req r).want = (res p).code
  one : ∀ p p' r, (s.responses p).bound = some r → (s.responses p').bound = some r → p = p'

lemma Dispatch.Tracks.start : (Dispatch.start : Dispatch ι γ ρ σ).Tracks req res where
  sent r h := by cases h
  sending r h := by cases h
  tracking r h := by cases h
  answering p h := by cases h
  pending id r h := by cases h
  answered p r h := by cases h
  one p p' r h := by cases h

variable {a : ResponseAt ι} {e : DispatchEvent ι ρ σ} {p : ρ} {r : ι}

namespace Dispatch.Tracks

lemma setRequest [DecidableEq ι] {a : RequestAt} (h : s.Tracks req res)
    (hr : ∀ err, s.requests r ≠ .returned err) (hd : s.dispatcher ≠ .sending r) :
    (s.setRequest r a).Tracks req res where
  __ := h
  sent r' hr' := by
    obtain ⟨err, herr⟩ := h.sent r' hr'
    have hne : r' ≠ r := fun heq => hr err (heq ▸ herr)
    exact ⟨err, (update_of_ne hne _ _).trans herr⟩
  sending r' hr' := by
    have hne : r' ≠ r := fun heq => hd (heq ▸ hr')
    exact (update_of_ne hne _ _).trans (h.sending r' hr')

/-- The dispatcher goes on, other than from where it forgets a request. -/
lemma turn {d : DispatcherAt ι γ ρ} (h : s.Tracks req res)
    (hd : ∀ id, s.dispatcher ≠ .untracking id) (hs : ∀ r, d = .sending r → s.requests r = .waiting)
    (ht : ∀ r, d = .tracking r → .sent r ∈ s.log ∧ ¬ s.Answered r)
    (ha : ∀ p, d = .answering p → s.responses p = .waiting) : { s with dispatcher := d }.Tracks req res where
  __ := h
  sending := hs
  tracking := ht
  answering := ha
  pending id r hr := by
    obtain ⟨hid, hsent, hopen⟩ := h.pending id r hr
    exact ⟨hid, hsent, fun _ => hopen (hd id)⟩

section
variable (h : s.Tracks req res)
include h

lemma logged
    (he : ∀ r, .sent r = e → ∃ err, s.requests r = .returned err) : (s.logged e).Tracks req res where
  __ := h
  sent r hr := by
    rcases mem_append.1 hr with hr | hr
    · exact h.sent r hr
    · exact he r (mem_singleton.1 hr)
  tracking r hr := (h.tracking r hr).imp (mem_append_left _) id
  pending id r hr := by
    obtain ⟨hid, hsent, hopen⟩ := h.pending id r hr
    exact ⟨hid, mem_append_left _ hsent, hopen⟩
  answered p r hp := (h.answered p r hp).imp (mem_append_left _) id

/-- A response goes on, with the request it has or without one as before. -/
lemma setResponse [DecidableEq ρ] (ha : a.bound = (s.responses p).bound) (hd : s.dispatcher ≠ .answering p) :
    (s.setResponse p a).Tracks req res := by
  have hbound : ∀ p', ((s.setResponse p a).responses p').bound = (s.responses p').bound := by
    intro p'
    by_cases hp : p' = p
    · subst hp
      simpa [Dispatch.setResponse] using ha
    · simp [Dispatch.setResponse, update_of_ne hp]
  have hanswered : ∀ r, (s.setResponse p a).Answered r ↔ s.Answered r := fun r =>
    exists_congr fun p' => by rw [hbound]
  constructor
  · exact h.sent
  · exact h.sending
  · intro r hr
    rw [hanswered]
    exact h.tracking r hr
  · intro p' hp'
    have hne : p' ≠ p := fun heq => hd (heq ▸ hp')
    exact (update_of_ne hne _ _).trans (h.answering p' hp')
  · intro id r hr
    rw [hanswered]
    exact h.pending id r hr
  · intro p' r hp'
    exact h.answered p' r (hbound p' ▸ hp')
  · intro p₁ p₂ r h₁ h₂
    exact h.one p₁ p₂ r (hbound p₁ ▸ h₁) (hbound p₂ ▸ h₂)

lemma erase (id : UInt64) :
    { s with pending := s.pending.erase id }.Tracks req res where
  __ := h
  pending id' r hr := h.pending id' r (lookup_erase_iff.1 hr).2

lemma track (hd : s.dispatcher = .tracking r) :
    { s with pending := s.pending.insert (req r).id r, dispatcher := .select }.Tracks req res where
  __ := h
  sending := nofun
  tracking := nofun
  answering := nofun
  pending id r' hr' := by
    rcases lookup_insert_iff.1 hr' with ⟨rfl, rfl⟩ | ⟨-, hr'⟩
    · obtain ⟨hsent, hopen⟩ := h.tracking _ hd
      exact ⟨rfl, hsent, fun _ => hopen⟩
    · obtain ⟨hid, hsent, hopen⟩ := h.pending id r' hr'
      exact ⟨hid, hsent, fun _ => hopen (by simp [hd])⟩

/-- The pending request of a response gets it: it has no other, and no other request has
its id. -/
lemma accept [DecidableEq ρ] (hd : s.dispatcher = .answering p)
    (hr : s.pending.lookup (res p).id = some r) (hw : (req r).want = (res p).code) :
    ({ s with dispatcher := .untracking (res p).id }.setResponse p (.accepted r)).Tracks req res := by
  obtain ⟨hid, hsent, hopen⟩ := h.pending _ _ hr
  have hfree : ¬ s.Answered r := hopen (by simp [hd])
  -- a request that is answered now is `r`, or was answered before
  have hbound : ∀ p' r', (update s.responses p (.accepted r) p').bound = some r' →
      (p' = p ∧ r' = r) ∨ (p' ≠ p ∧ (s.responses p').bound = some r') := by
    intro p' r' h'
    by_cases hp : p' = p
    · subst hp
      exact .inl ⟨rfl, by simpa [ResponseAt.bound, eq_comm] using h'⟩
    · exact .inr ⟨hp, by simpa [update_of_ne hp] using h'⟩
  refine ⟨h.sent, nofun, nofun, nofun, ?_, ?_, ?_⟩
  · intro id r' hr'
    obtain ⟨hid', hsent', hopen'⟩ := h.pending id r' hr'
    refine ⟨hid', hsent', ?_⟩
    rintro hne ⟨p', hp'⟩
    rcases hbound p' r' hp' with ⟨-, rfl⟩ | ⟨-, hp'⟩
    · exact hne (congrArg _ (hid.symm.trans hid'))
    · exact hopen' (by simp [hd]) ⟨p', hp'⟩
  · intro p' r' hp'
    rcases hbound p' r' hp' with ⟨rfl, rfl⟩ | ⟨-, hp'⟩
    · exact ⟨hsent, hid, hw⟩
    · exact h.answered p' r' hp'
  · intro p₁ p₂ r' h₁ h₂
    rcases hbound p₁ r' h₁ with ⟨rfl, rfl⟩ | ⟨-, h₁'⟩ <;> rcases hbound p₂ _ h₂ with ⟨rfl, heq⟩ | ⟨-, h₂'⟩
    · rfl
    · exact absurd ⟨p₂, h₂'⟩ hfree
    · exact absurd ⟨p₁, heq ▸ h₁'⟩ hfree
    · exact h.one p₁ p₂ r' h₁' h₂'

end

lemma untrack {id : UInt64} (h : s.Tracks req res) (hd : s.dispatcher = .untracking id) :
    { s with pending := s.pending.erase id, dispatcher := .select }.Tracks req res where
  __ := h
  sending := nofun
  tracking := nofun
  answering := nofun
  pending id' r hr := by
    obtain ⟨hne, hr⟩ := lookup_erase_iff.1 hr
    obtain ⟨hid, hsent, hopen⟩ := h.pending id' r hr
    exact ⟨hid, hsent, fun _ => hopen (by simpa [hd] using hne.symm)⟩

/-- A request that is being sent was not sent before, and has no answer. -/
lemma not_answered (h : s.Tracks req res) (hr : ∀ err, s.requests r ≠ .returned err) : ¬ s.Answered r := by
  rintro ⟨p, hp⟩
  obtain ⟨err, herr⟩ := h.sent r (h.answered p r hp).1
  exact hr err herr

lemma effect [DecidableEq ι] [DecidableEq ρ] (h : s.Tracks req res) (he : s.Effect req res t) : t.Tracks req res := by
  cases he with
  | quiet => exact { h with }
  | @request r a hr =>
    apply h.setRequest
    · intro err herr
      simp [herr] at hr
    · intro hd
      simp [h.sending r hd] at hr
  | @takeRequest r hr hd =>
    have h1 : (s.setRequest r .waiting).Tracks req res := h.setRequest (by simp [hr]) (by simp [hd])
    refine h1.turn (d := .sending r) (fun id => by simp [Dispatch.setRequest, hd]) ?_ nofun nofun
    rintro r' ⟨⟩
    exact update_self r _ _
  | @sent r hd =>
    have hwait := h.sending r hd
    have hopen : ¬ s.Answered r := h.not_answered (by simp [hwait])
    have h1 := h.turn (d := .select) (by simp [hd]) nofun nofun nofun
    have h2 := h1.setRequest (r := r) (a := .returned none) (by simp [hwait]) nofun
    have h3 := h2.logged (e := .sent r) (by rintro r' ⟨⟩; exact ⟨none, update_self r _ _⟩)
    refine h3.turn (d := .tracking r) nofun nofun ?_ nofun
    rintro r' ⟨⟩
    exact ⟨mem_append_right _ (mem_singleton_self _), hopen⟩
  | @notSent r err hd =>
    have hwait := h.sending r hd
    exact (h.turn (d := .select) (by simp [hd]) nofun nofun nofun).setRequest (by simp [hwait]) nofun
  | track hd => exact h.track hd
  | takeClose c cs hd =>
    exact { h.turn (d := .cancelling c) (by simp [hd]) nofun nofun nofun with }
  | cancel id cs hd =>
    exact { (h.erase id).turn (d := .select) (by simp [hd]) nofun nofun nofun with }
  | closed r cs =>
    exact { h.logged (e := .closed r) nofun with }
  | @respond p a ha hp =>
    apply h.setResponse
    · rcases hp with hp | hp <;> rw [hp, ha] <;> rfl
    · intro hd
      simp [h.answering p hd] at hp
  | @takeResponse p hp hd =>
    have h1 : (s.setResponse p .waiting).Tracks req res := h.setResponse (by rw [hp]; rfl) (by simp [hd])
    refine h1.turn (d := .answering p) (fun id => by simp [Dispatch.setResponse, hd]) nofun nofun ?_
    rintro p' ⟨⟩
    exact update_self p _ _
  | @refuse p err hd =>
    have hwait := h.answering p hd
    exact (h.turn (d := .select) (by simp [hd]) nofun nofun nofun).setResponse (by rw [hwait]; rfl) nofun
  | accept hd hr hw => exact h.accept hd hr hw
  | untrack hd => exact h.untrack hd
  | @start p r hp _ | @deliver p r hp =>
    exact (h.setResponse (by rw [hp]; rfl) fun hd => by simp [h.answering p hd] at hp).logged nofun
  | @discard p r hp =>
    apply h.setResponse
    · rcases hp with hp | hp <;> rw [hp] <;> rfl
    · intro hd
      simp [h.answering p hd] at hp
  | terminate hd => exact h.turn (by simp [hd]) nofun nofun nofun

end Dispatch.Tracks

/-! ## Deliveries -/

/-- The delivery of a response with this id. -/
def DeliveryOf (res : ρ → PeerResponse) (id : UInt64) (e : DispatchEvent ι ρ σ) : Prop :=
  ∃ p sink, e = .delivered p sink ∧ (res p).id = id

variable (req res) in
/-- The response is one of this request, for this sink. -/
def Matches (p : ρ) (sink : σ) (r : ι) : Prop :=
  (req r).id = (res p).id ∧ (req r).want = (res p).code ∧ (req r).sink = sink

namespace Dispatch

variable (req res) in
structure Delivers (s : Dispatch ι γ ρ σ) : Prop where
  delivered : ∀ p sink, .delivered p sink ∈ s.log → ∃ r, s.responses p = .delivered r
  sent : ∀ l p sink m, s.log = l ++ DispatchEvent.delivered p sink :: m → ∃ r, .sent r ∈ l ∧ Matches req res p sink r
  once : ∀ id, Separated (DeliveryOf res id) (fun _ => False) s.log

lemma Delivers.start : (Dispatch.start : Dispatch ι γ ρ σ).Delivers req res where
  delivered p sink h := by cases h
  sent l p sink m h := by simp [Dispatch.start] at h
  once _ := separated_nil

section
variable (h : s.Delivers req res)
include h

lemma Delivers.setResponse [DecidableEq ρ]
    (hp : ∀ r, s.responses p ≠ .delivered r) : (s.setResponse p a).Delivers req res where
  __ := h
  delivered p' sink hp' := by
    obtain ⟨r, hr⟩ := h.delivered p' sink hp'
    have hne : p' ≠ p := fun heq => hp r (heq ▸ hr)
    exact ⟨r, (update_of_ne hne _ _).trans hr⟩

lemma Delivers.logged
    (he : ∀ p sink, e ≠ .delivered p sink) : (s.logged e).Delivers req res where
  delivered p sink hp := by
    rcases mem_append.1 hp with hp | hp
    · exact h.delivered p sink hp
    · exact absurd (mem_singleton.1 hp).symm (he p sink)
  sent l p sink m hlog := by
    rcases snoc_eq_append_cons hlog with ⟨-, rfl, -⟩ | ⟨m', -, hlog⟩
    · exact absurd rfl (he p sink)
    · exact h.sent l p sink m' hlog
  once id := by
    refine separated_snoc.2 ⟨h.once id, ?_⟩
    rintro ⟨p, sink, rfl, -⟩
    exact absurd rfl (he p sink)

/-- A response that is delivered has its request, which had none before. -/
lemma Delivers.deliver [DecidableEq ρ] (ht : s.Tracks req res)
    (hid : Function.Injective fun r => (req r).id) (hp : s.responses p = .delivering r) :
    ((s.setResponse p (.delivered r)).logged (.delivered p (req r).sink)).Delivers req res := by
  have hbound : (s.responses p).bound = some r := by rw [hp]; rfl
  obtain ⟨hsent, hpid, hwant⟩ := ht.answered p r hbound
  have h1 : (s.setResponse p (.delivered r)).Delivers req res := h.setResponse (by simp [hp])
  constructor
  · intro p' sink hp'
    rcases mem_append.1 hp' with hp' | hp'
    · exact h1.delivered p' sink hp'
    · cases mem_singleton.1 hp'
      exact ⟨r, update_self p _ _⟩
  · intro l p' sink m hlog
    rcases snoc_eq_append_cons hlog with ⟨rfl, hlast, -⟩ | ⟨m', -, hlog⟩
    · cases hlast
      exact ⟨r, hsent, hpid, hwant, rfl⟩
    · exact h.sent l p' sink m' hlog
  · intro id
    refine separated_snoc.2 ⟨h.once id, ?_⟩
    rintro ⟨p', sink, heq, rfl⟩ hpending
    cases heq
    obtain ⟨e, hmem, p', sink', rfl, hp'⟩ := pending_false_iff.1 hpending
    obtain ⟨r', hr'⟩ := h.delivered p' sink' hmem
    have hbound' : (s.responses p').bound = some r' := by rw [hr']; rfl
    have heq : r' = r := hid (((ht.answered p' r' hbound').2.1.trans hp').trans hpid.symm)
    obtain rfl := ht.one p' p r (heq ▸ hbound') hbound
    rw [hp] at hr'
    cases hr'

lemma Delivers.effect [DecidableEq ι] [DecidableEq ρ] (ht : s.Tracks req res)
    (hid : Function.Injective fun r => (req r).id) (he : s.Effect req res t) : t.Delivers req res := by
  cases he with
  | quiet | request | takeRequest | notSent | track | takeClose | cancel | untrack | terminate =>
    exact { h with }
  | sent =>
    obtain ⟨h1, h2, h3⟩ := h.logged (e := .sent _) nofun
    exact ⟨h1, h2, h3⟩
  | closed =>
    obtain ⟨h1, h2, h3⟩ := h.logged (e := .closed _) nofun
    exact ⟨h1, h2, h3⟩
  | respond a ha hp => exact h.setResponse fun r hr => by simp [hr] at hp
  | @takeResponse p hp hd =>
    obtain ⟨h1, h2, h3⟩ := h.setResponse (p := p) (a := .waiting) (by simp [hp])
    exact ⟨h1, h2, h3⟩
  | @refuse p err hd =>
    obtain ⟨h1, h2, h3⟩ := h.setResponse (p := p) (a := .refused err) (by simp [ht.answering p hd])
    exact ⟨h1, h2, h3⟩
  | @accept p r hd hr hw =>
    obtain ⟨h1, h2, h3⟩ := h.setResponse (p := p) (a := .accepted r) (by simp [ht.answering p hd])
    exact ⟨h1, h2, h3⟩
  | start hp hr => exact (h.setResponse (by simp [hp])).logged nofun
  | deliver hp => exact h.deliver ht hid hp
  | discard hp => exact h.setResponse fun r hr => by simp [hr] at hp

end

/-! ## Cancellations -/

/-- No response is offered to the sink of a request after `Close` of it returned. -/
structure Cancels (s : Dispatch ι γ ρ σ) : Prop where
  closed : ∀ r, .closed r ∈ s.log → s.cancelled r = true
  none_after : ∀ r, NoneAfter (· = .closed r) (fun e => ∃ p, e = .started p r) s.log

lemma Cancels.start : (Dispatch.start : Dispatch ι γ ρ σ).Cancels where
  closed r h := by cases h
  none_after _ := noneAfter_nil

lemma Cancels.logged (h : s.Cancels)
    (hclosed : ∀ r, e = .closed r → s.cancelled r = true)
    (hstarted : ∀ p r, e = .started p r → s.cancelled r = false) : (s.logged e).Cancels where
  closed r hr := by
    rcases mem_append.1 hr with hr | hr
    · exact h.closed r hr
    · exact hclosed r (mem_singleton.1 hr).symm
  none_after r := by
    refine noneAfter_snoc.2 ⟨h.none_after r, ?_⟩
    rintro ⟨p, rfl⟩ x hx rfl
    have htrue := h.closed r hx
    rw [hstarted p r rfl] at htrue
    cases htrue

lemma Cancels.effect [DecidableEq ι] [DecidableEq ρ] (h : s.Cancels) (he : s.Effect req res t) : t.Cancels := by
  cases he with
  | quiet | request | takeRequest | notSent | track | takeClose | cancel | untrack | terminate | respond
  | takeResponse | refuse | accept | discard => exact { h with }
  | sent =>
    obtain ⟨h1, h2⟩ := h.logged (e := .sent _) nofun nofun
    exact ⟨h1, h2⟩
  | closed r cs =>
    have h1 : ({ s with cancelled := update s.cancelled r true, closes := cs } : Dispatch ι γ ρ σ).Cancels := by
      refine ⟨fun r' hr' => ?_, h.none_after⟩
      by_cases hr : r' = r
      · subst hr
        exact update_self _ _ _
      · exact (update_of_ne hr _ _).trans (h.closed r' hr')
    refine h1.logged ?_ nofun
    rintro r' ⟨⟩
    exact update_self _ _ _
  | @start p r hp hr =>
    have h1 : (s.setResponse p (.delivering r)).Cancels := { h with }
    refine h1.logged nofun ?_
    rintro p' r' ⟨⟩
    exact hr
  | @deliver p r hp =>
    have h1 : (s.setResponse p (.delivered r)).Cancels := { h with }
    exact h1.logged nofun nofun

end Dispatch

/-! ## Runs of the peer -/

/-- Whatever the requesters, the reader and the dispatcher do, and in whatever order: a
response that is delivered was asked for by a request sent before, goes to that request's
sink, and is the only one with its id; and none is offered once the request is closed. -/
theorem deliveries_sound [DecidableEq ι] [DecidableEq γ] [DecidableEq ρ] (hid : Function.Injective fun r => (req r).id) {as : List (DispatchAction ι γ ρ)}
    (hrun : Run (DispatchStep req closeOf res) Dispatch.start as s) :
    (∀ l p sink m, s.log = l ++ DispatchEvent.delivered p sink :: m →
      ∃ r, .sent r ∈ l ∧ (req r).id = (res p).id ∧ (req r).want = (res p).code ∧ (req r).sink = sink) ∧
    (∀ l p sink m p' sink' k, s.log = l ++ DispatchEvent.delivered p sink :: (m ++ DispatchEvent.delivered p' sink' :: k) →
      (res p).id ≠ (res p').id) ∧
    ∀ l r m, s.log = l ++ DispatchEvent.closed r :: m → ∀ p, .started p r ∉ m := by
  have hall : s.Tracks req res ∧ s.Delivers req res ∧ s.Cancels := by
    refine hrun.inv (fun s => s.Tracks req res ∧ s.Delivers req res ∧ s.Cancels)
      ⟨.start, .start, .start⟩ ?_
    rintro s a t ⟨ht, hd, hc⟩ hstep
    have heff := effect_of_dispatchStep hstep
    exact ⟨ht.effect heff, hd.effect ht hid heff, hc.effect heff⟩
  obtain ⟨-, hd, hc⟩ := hall
  refine ⟨hd.sent, ?_, ?_⟩
  · intro l p sink m p' sink' k hlog heq
    obtain ⟨e, -, hfalse⟩ := hd.once (res p').id l _ m _ k hlog ⟨p, sink, rfl, heq⟩ ⟨p', sink', rfl, rfl⟩
    exact hfalse
  · intro l r m hlog p hp
    exact hc.none_after r l _ m hlog rfl _ hp ⟨p, rfl⟩

end

/-- Two requests with their responses; the second is closed when its response was
accepted already, and the response is dropped. -/
def oneClosed : List (DispatchAction (Fin 2) Unit (Fin 2)) :=
  [.request 0, .request 1, .takeRequest 0, .send true, .track, .takeRequest 1, .send true, .track,
    .respond 0, .takeResponse 0, .answer, .untrack, .respond 1, .takeResponse 1, .answer, .untrack,
    .offer 0, .deliver 0, .close (), .takeClose (), .cancel, .closeChannel (), .offer 1]

theorem one_closed_sound : ∃ s : Dispatch (Fin 2) Unit (Fin 2) (Fin 2),
    Run (DispatchStep (fun r => ⟨r.val.toUInt64, r, 4⟩) (fun _ => 1) fun p => ⟨p.val.toUInt64, 4⟩)
      Dispatch.start oneClosed s ∧
    s.log = [.sent 0, .sent 1, .started 0 0, .delivered 0 0, .closed 1] ∧ s.responses 1 = .discarded 1 ∧
    ∀ l r m, s.log = l ++ DispatchEvent.closed r :: m → ∀ p, .started p r ∉ m := by
  have hfound : ∃ s, Run (DispatchStep (fun r => ⟨r.val.toUInt64, r, 4⟩) (fun _ => 1) fun p => ⟨p.val.toUInt64, 4⟩)
      (Dispatch.start : Dispatch (Fin 2) Unit (Fin 2) (Fin 2)) oneClosed s ∧
      decide (s.log = [.sent 0, .sent 1, .started 0 0, .delivered 0 0, .closed 1] ∧
        s.responses 1 = .discarded 1) = true := Run.of_foldlM (by decide +kernel)
  obtain ⟨s, hrun, hs⟩ := hfound
  obtain ⟨hlog, hone⟩ := of_decide_eq_true hs
  have hid : Function.Injective fun r : Fin 2 => r.val.toUInt64 := by
    intro r r'
    revert r r'
    decide
  exact ⟨s, hrun, hlog, hone, (deliveries_sound hid hrun).2.2⟩

end TurboOctopus.Eth
