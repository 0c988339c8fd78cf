import TurboOctopus.NodeManager.Streams
import TurboOctopus.Lib.Logs
/-!
# No message twice

A transaction or block should go to the streams once, until its hash has been evicted
from the cache of known ones. `Contains` and `Add` are two operations, so two calls
with one hash can both find it unknown and both broadcast it (`broadcast_twice`). As
long as no call finds a hash unknown while another stands between its own `Contains`
and `Add` of it, two broadcasts of one hash are by two calls, and it was evicted
between the looks that let them through (`broadcasts_apart`).
-/
namespace TurboOctopus.NodeManager

open Lib TurboOctopus.Types List Function

variable {ι β : Type}

/-- The message of a call that is about to look for its hash. -/
def CallAt.looking : CallAt ι → Option Msg
  | .contains msg => some msg
  | .idle | .add _ | .marshal _ | .iterate _ | .sending _ _ | .returned => none

/-- The message of a call that found it unknown and still deals with it. -/
def CallAt.taken : CallAt ι → Option Msg
  | .add msg | .marshal msg | .iterate msg | .sending msg _ => some msg
  | .idle | .contains _ | .returned => none

/-- The call has not come to its broadcast. -/
def CallAt.Before : CallAt ι → Prop
  | .idle | .contains _ | .add _ | .marshal _ | .iterate _ => True
  | .sending _ _ | .returned => False

def HubEvent.Admits (msg : Msg) (e : HubEvent ι β) : Prop := ∃ j, e = .admitted j msg

def HubEvent.Evicts (msg : Msg) (e : HubEvent ι β) : Prop := e = .evicted msg

def HubEvent.BroadcastBy (j : β) (e : HubEvent ι β) : Prop := ∃ msg, e = .broadcast j msg

/-- No call finds a hash unknown while another is between `Contains` and `Add` of it. -/
def Hub.Exclusive (s : Hub ι β) : HubAction ι β → Prop
  | .process j _ _ _ =>
    ∀ msg ∈ (s.calls j).looking, msg.hash ∈ (s.known msg.streamType).hashes ∨ ∀ k, s.calls k ≠ .add msg
  | .connect _ _ | .stream _ | .receive _ | .deliver _ _ _ | .closeStream _ | .call _ _ => True

instance [DecidableEq ι] [Fintype β] (s : Hub ι β) : (a : HubAction ι β) → Decidable (s.Exclusive a)
  | .process j _ _ _ =>
    inferInstanceAs (Decidable (∀ msg ∈ (s.calls j).looking, msg.hash ∈ (s.known msg.streamType).hashes ∨ ∀ _, _ ≠ _))
  | .connect _ _ | .stream _ | .receive _ | .deliver _ _ _ | .closeStream _ | .call _ _ =>
    inferInstanceAs (Decidable True)

/-! ## Between two looks that miss a hash it was evicted -/

structure Hub.Filtered (s : Hub ι β) : Prop where
  once : ∀ msg, Separated (HubEvent.Admits msg) (HubEvent.Evicts msg) s.log
  pending : ∀ msg, Pending (HubEvent.Admits msg) (HubEvent.Evicts msg) s.log →
    msg.hash ∈ (s.known msg.streamType).hashes ∨ ∃ j, s.calls j = .add msg
  adding : ∀ j msg, s.calls j = .add msg →
    msg.hash ∉ (s.known msg.streamType).hashes ∧ ∀ k, s.calls k = .add msg → k = j

lemma Hub.filtered_start : (Hub.start : Hub ι β).Filtered where
  once _ := separated_nil
  pending _ h := absurd h not_pending_nil
  adding j msg h := by cases h

section Filtered
variable {s t : Hub ι β}

lemma Hub.Filtered.of_eq (h : s.Filtered) (hk : t.known = s.known) (hc : t.calls = s.calls) (hl : t.log = s.log) :
    t.Filtered where
  once := by rw [hl]; exact h.once
  pending := by rw [hl, hk, hc]; exact h.pending
  adding := by rw [hk, hc]; exact h.adding

lemma Hub.Filtered.logged (h : s.Filtered) (e : HubEvent ι β) (hadm : ∀ msg, ¬ e.Admits msg) :
    (s.logged [e]).Filtered where
  once msg := separated_snoc.2 ⟨h.once msg, fun he => absurd he (hadm msg)⟩
  pending msg hp := h.pending msg ((pending_snoc.1 hp).resolve_left (hadm msg)).2
  adding := h.adding

variable [DecidableEq β]

/-- A call that is not about to add, and does not come to it. -/
lemma Hub.Filtered.setCall (h : s.Filtered) (j : β) (c : CallAt ι) (hj : ∀ msg, s.calls j ≠ .add msg)
    (hc : ∀ msg, c ≠ .add msg) : (s.setCall j c).Filtered where
  once := h.once
  pending msg hp := by
    refine (h.pending msg hp).imp_right fun ⟨k, hk⟩ => ⟨k, ?_⟩
    have hkj : k ≠ j := by
      rintro rfl
      exact hj msg hk
    exact (update_of_ne hkj _ _).trans hk
  adding k msg hk := by
    obtain ⟨hnew, honly⟩ := h.adding k msg (of_update_eq (hc msg) hk).2
    exact ⟨hnew, fun k' hk' => honly k' (of_update_eq (hc msg) hk').2⟩

variable {j : β}

variable {msg : Msg}

/-- A call finds the hash unknown. It was not pending, so it was evicted since the last
time. -/
lemma Hub.Filtered.unknown (h : s.Filtered)
    (hnew : msg.hash ∉ (s.known msg.streamType).hashes) (honly : ∀ k, s.calls k ≠ .add msg)
    (hj : ∀ m, s.calls j ≠ .add m) : ((s.logged [.admitted j msg]).setCall j (.add msg)).Filtered := by
  have hcalls : ∀ k, ((s.logged [.admitted j msg]).setCall j (.add msg)).calls k =
      if k = j then .add msg else s.calls k := fun k => by
    simp [Hub.setCall, Hub.logged, update_apply]
  constructor
  · intro m
    refine separated_snoc.2 ⟨h.once m, ?_⟩
    rintro ⟨k, he⟩ hp
    obtain ⟨-, rfl⟩ := HubEvent.admitted.inj he
    rcases h.pending msg hp with hold | ⟨k', hk'⟩
    · exact hnew hold
    · exact honly k' hk'
  · intro m hp
    rcases pending_snoc.1 hp with ⟨k, he⟩ | ⟨-, hp⟩
    · obtain ⟨-, rfl⟩ := HubEvent.admitted.inj he
      exact .inr ⟨j, by simp [hcalls]⟩
    · rcases h.pending m hp with hold | ⟨k, hk⟩
      · exact .inl hold
      · have hkj : k ≠ j := by
          rintro rfl
          exact hj m hk
        exact .inr ⟨k, by simp [hcalls, hkj, hk]⟩
  · intro k m hk
    rw [hcalls] at hk
    split at hk
    · next hkj =>
      subst hkj
      cases hk
      refine ⟨hnew, fun k' hk' => ?_⟩
      rw [hcalls] at hk'
      split at hk'
      · assumption
      · exact absurd hk' (honly k')
    · obtain ⟨hm, hsingle⟩ := h.adding k m hk
      refine ⟨hm, fun k' hk' => ?_⟩
      rw [hcalls] at hk'
      split at hk'
      · cases hk'
        exact absurd hk (honly k)
      · exact hsingle k' hk'

/-- The call adds the hash, and others are evicted for it. -/
lemma Hub.Filtered.add {popped : List Hash} {k : KnownCache} (h : s.Filtered)
    (hj : s.calls j = .add msg) (hk : (s.known msg.streamType).add popped msg.hash = some k) :
    (({ s with known := Function.update s.known msg.streamType k }.logged
      (popped.map fun hash => .evicted ⟨msg.streamType, hash⟩)).setCall j (.marshal msg)).Filtered := by
  have hadmits : ∀ m : Msg, ∀ e ∈ popped.map (fun hash => (.evicted ⟨msg.streamType, hash⟩ : HubEvent ι β)),
      ¬ e.Admits m := by
    simp [HubEvent.Admits]
  -- what is known after the addition, for messages of either type
  have hknown : ∀ m : Msg, m.hash ∈ (Function.update s.known msg.streamType k m.streamType).hashes ↔
      m = msg ∨ (m.hash ∈ (s.known m.streamType).hashes ∧ ¬ (m.streamType = msg.streamType ∧ m.hash ∈ popped)) := by
    rintro ⟨type, hash⟩
    by_cases htype : type = msg.streamType
    · subst htype
      simp only [update_self, KnownCache.mem_add hk, true_and]
      refine or_congr_left ⟨?_, ?_⟩
      · rintro rfl
        rfl
      · rintro h
        rw [← h]
    · have hne : (⟨type, hash⟩ : Msg) ≠ msg := by
        rintro rfl
        exact htype rfl
      simp [htype, hne]
  constructor
  · intro m
    exact (separated_append (hadmits m)).2 (h.once m)
  · intro m hp
    obtain ⟨hp, hkept⟩ := (pending_append (hadmits m)).1 hp
    have hnot : ¬ (m.streamType = msg.streamType ∧ m.hash ∈ popped) := by
      rintro ⟨htype, hmem⟩
      refine hkept (.evicted m) (mem_map.2 ⟨m.hash, hmem, ?_⟩) rfl
      rw [← htype]
    by_cases hm : m = msg
    · exact .inl ((hknown m).2 (.inl hm))
    · rcases h.pending m hp with hold | ⟨i, hi⟩
      · exact .inl ((hknown m).2 (.inr ⟨hold, hnot⟩))
      · refine .inr ⟨i, (update_of_ne ?_ _ _).trans hi⟩
        rintro rfl
        exact hm (CallAt.add.inj (hi.symm.trans hj))
  · intro i m hi
    obtain ⟨hij, hi⟩ := of_update_eq (by simp) hi
    obtain ⟨hold, hsingle⟩ := h.adding i m hi
    refine ⟨fun hmem => ?_, fun i' hi' => hsingle i' (of_update_eq (by simp) hi').2⟩
    rcases (hknown m).1 hmem with rfl | ⟨hmem, -⟩
    · exact hij (hsingle j hj).symm
    · exact hold hmem

variable [DecidableEq ι]

lemma Hub.Filtered.processed (h : s.Filtered) (hp : s.Processed j t)
    (hok : ∀ msg ∈ (s.calls j).looking, msg.hash ∈ (s.known msg.streamType).hashes ∨ ∀ k, s.calls k ≠ .add msg) :
    t.Filtered := by
  cases hp with
  | known msg hj _ => exact h.setCall j _ (by simp [hj]) (by simp)
  | unknown msg hj hnew => exact h.unknown hnew ((hok msg (by rw [hj]; rfl)).resolve_left hnew) (by simp [hj])
  | add msg popped k hj hk => exact h.add hj hk
  | marshal msg c hj hc => exact h.setCall j _ (by simp [hj]) (by rcases hc with rfl | rfl <;> simp)
  | iterate msg order hj _ =>
    exact (h.logged _ (by simp [HubEvent.Admits])).setCall j _ (by simp [Hub.logged, hj]) (by simp)
  | finish msg hj => exact h.setCall j _ (by simp [hj]) (by simp)
  | send msg peer rest hj =>
    have hput : (s.put peer.streamChan msg).Filtered := h.of_eq rfl rfl rfl
    exact (hput.logged _ (by simp [HubEvent.Admits])).setCall j _ (by simp [Hub.logged, Hub.put, hj]) (by simp)

end Filtered

/-! ## Every broadcast is by a call of its own that found the hash unknown -/

structure Hub.Accounted (s : Hub ι β) : Prop where
  taken : ∀ j msg, (s.calls j).taken = some msg → .admitted j msg ∈ s.log
  broadcast : ∀ j msg, .broadcast j msg ∈ s.log → .admitted j msg ∈ s.log ∧ ¬ (s.calls j).Before
  single : ∀ j, Separated (HubEvent.BroadcastBy j) (fun _ => False) s.log

lemma Hub.accounted_start : (Hub.start : Hub ι β).Accounted where
  taken j msg h := by cases h
  broadcast j msg h := by cases h
  single j := separated_nil

section Accounted
variable {s t : Hub ι β}

lemma Hub.Accounted.of_eq (h : s.Accounted) (hc : t.calls = s.calls) (hl : t.log = s.log) : t.Accounted where
  taken := by rw [hc, hl]; exact h.taken
  broadcast := by rw [hc, hl]; exact h.broadcast
  single := by rw [hl]; exact h.single

lemma Hub.Accounted.logged (h : s.Accounted) (es : List (HubEvent ι β)) (hes : ∀ e ∈ es, ∀ j, ¬ e.BroadcastBy j) :
    (s.logged es).Accounted where
  taken j msg hj := mem_append_left es (h.taken j msg hj)
  broadcast j msg hb := by
    rcases mem_append.1 hb with hb | hb
    · exact (h.broadcast j msg hb).imp_left (mem_append_left es)
    · exact absurd ⟨msg, rfl⟩ (hes _ hb j)
  single j := (separated_append fun e he => hes e he j).2 (h.single j)

variable [DecidableEq β]

/-- A call may go on with a message it was admitted with, and not back. -/
lemma Hub.Accounted.setCall (h : s.Accounted) (j : β) (c : CallAt ι)
    (htaken : ∀ msg, c.taken = some msg → .admitted j msg ∈ s.log) (hback : c.Before → (s.calls j).Before) :
    (s.setCall j c).Accounted where
  taken k msg hk := by
    by_cases hkj : k = j
    · subst hkj
      exact htaken msg (by simpa [Hub.setCall] using hk)
    · exact h.taken k msg (by simpa [Hub.setCall, hkj] using hk)
  broadcast k msg hb := by
    obtain ⟨hadm, hlate⟩ := h.broadcast k msg hb
    refine ⟨hadm, fun hbefore => hlate ?_⟩
    by_cases hkj : k = j
    · subst hkj
      exact hback (by simpa [Hub.setCall] using hbefore)
    · simpa [Hub.setCall, hkj] using hbefore
  single := h.single

/-- The broadcast itself: the call has made none before. -/
lemma Hub.Accounted.iterate (targets : List (ServerPeer ι)) (h : s.Accounted)
    (hj : s.calls j = .iterate msg) : ((s.logged [.broadcast j msg]).setCall j (.sending msg targets)).Accounted := by
  have hadm : .admitted j msg ∈ s.log := h.taken j msg (by rw [hj]; rfl)
  have hnone : ∀ m, .broadcast j m ∉ s.log := fun m hm => (h.broadcast j m hm).2 (by rw [hj]; trivial)
  constructor
  · intro k m hk
    refine mem_append_left _ ?_
    by_cases hkj : k = j
    · subst hkj
      simp only [Hub.setCall, update_self, CallAt.taken, Option.some.injEq] at hk
      exact hk ▸ hadm
    · exact h.taken k m (by simpa [Hub.setCall, hkj, Hub.logged] using hk)
  · intro k m hb
    rcases mem_append.1 hb with hold | hb
    · obtain ⟨hadmitted, hlate⟩ := h.broadcast k m hold
      refine ⟨mem_append_left _ hadmitted, ?_⟩
      have hkj : k ≠ j := by
        rintro rfl
        exact hnone m hold
      simpa [Hub.setCall, hkj, Hub.logged] using hlate
    · obtain ⟨rfl, rfl⟩ := HubEvent.broadcast.inj (mem_singleton.1 hb)
      exact ⟨mem_append_left _ hadm, by simp [Hub.setCall, CallAt.Before]⟩
  · intro k
    refine separated_snoc.2 ⟨h.single k, ?_⟩
    rintro ⟨m, he⟩ ⟨l, x, r, hlog, ⟨m', rfl⟩, -⟩
    obtain ⟨rfl, -⟩ := HubEvent.broadcast.inj he
    exact hnone m' (by rw [hlog]; simp)

variable [DecidableEq ι]

lemma Hub.Accounted.processed (h : s.Accounted) (hp : s.Processed j t) : t.Accounted := by
  cases hp with
  | unknown msg hj _ =>
    refine (h.logged [.admitted j msg] (by simp [HubEvent.BroadcastBy])).setCall j _ (fun m hm => ?_)
      (by simp [Hub.logged, hj, CallAt.Before])
    cases hm
    simp [Hub.logged]
  | add msg popped k hj _ =>
    have hadm := h.taken j msg (by rw [hj]; rfl)
    have hknown : { s with known := Function.update s.known msg.streamType k }.Accounted := h.of_eq rfl rfl
    refine (hknown.logged _ (by simp [HubEvent.BroadcastBy])).setCall j _ (fun m hm => ?_)
      (by simp [Hub.logged, hj, CallAt.Before])
    cases hm
    exact mem_append_left _ hadm
  | marshal msg c hj hc =>
    have hadm := h.taken j msg (by rw [hj]; rfl)
    refine h.setCall j c (fun m hm => ?_) (by simp [hj, CallAt.Before])
    rcases hc with rfl | rfl <;> cases hm
    exact hadm
  | iterate msg order hj _ => exact h.iterate _ hj
  | known | finish => exact h.setCall j _ (by simp [CallAt.taken]) (by simp [CallAt.Before])
  | send msg peer rest hj =>
    have hadm := h.taken j msg (by rw [hj]; rfl)
    have hput : (s.put peer.streamChan msg).Accounted := h.of_eq rfl rfl
    refine (hput.logged _ (by simp [HubEvent.BroadcastBy])).setCall j _ (fun m hm => ?_) (by simp [CallAt.Before])
    cases hm
    exact mem_append_left _ hadm

end Accounted

variable [DecidableEq ι] [DecidableEq β]

lemma fanout_step {s t : Hub ι β} {a : HubAction ι β} (h : s.Filtered ∧ s.Accounted)
    (hs : Guarded Hub.Exclusive Hub.step s a t) : t.Filtered ∧ t.Accounted := by
  obtain ⟨hok, hs⟩ := hs
  cases a with
  | process j popped encodes order => exact ⟨h.1.processed (Hub.processed hs) hok, h.2.processed (Hub.processed hs)⟩
  | call j msg =>
    simp only [Hub.step] at hs
    split at hs <;> cases hs
    next hj =>
    exact ⟨h.1.setCall j _ (by simp [hj]) (by simp),
      h.2.setCall j _ (by simp [CallAt.taken]) (by simp [hj, CallAt.Before])⟩
  | connect | stream | receive | deliver | closeStream =>
    obtain ⟨hk, hc, hl⟩ := Hub.stream_frame hs (by simp) (by simp)
    exact ⟨h.1.of_eq hk hc hl, h.2.of_eq hc hl⟩

/-- Two broadcasts of one message are by two calls, and between the looks that let them
through the hash was evicted. -/
def Hub.BroadcastsApart (s : Hub ι β) : Prop :=
  ∀ i j msg l m r, s.log = l ++ HubEvent.broadcast i msg :: (m ++ HubEvent.broadcast j msg :: r) →
    i ≠ j ∧ ∃ l' m' r', (s.log = l' ++ HubEvent.admitted i msg :: (m' ++ HubEvent.admitted j msg :: r') ∨
      s.log = l' ++ HubEvent.admitted j msg :: (m' ++ HubEvent.admitted i msg :: r')) ∧ .evicted msg ∈ m'

omit [DecidableEq ι] [DecidableEq β] in
lemma Hub.Filtered.apart {s : Hub ι β} (hfilter : s.Filtered) (haccount : s.Accounted) : s.BroadcastsApart := by
  intro i j msg l m r hlog
  have hij : i ≠ j := by
    rintro rfl
    obtain ⟨z, -, hz⟩ := haccount.single i l _ m _ r hlog ⟨msg, rfl⟩ ⟨msg, rfl⟩
    exact hz
  have hi : .admitted i msg ∈ s.log := (haccount.broadcast i msg (by rw [hlog]; simp)).1
  have hj : .admitted j msg ∈ s.log := (haccount.broadcast j msg (by rw [hlog]; simp)).1
  refine ⟨hij, ?_⟩
  rcases append_cons_of_mem hi hj (by simpa using hij) with ⟨l', m', r', h⟩ | ⟨l', m', r', h⟩
  · obtain ⟨z, hz, rfl⟩ := hfilter.once msg l' _ m' _ r' h ⟨i, rfl⟩ ⟨j, rfl⟩
    exact ⟨l', m', r', .inl h, hz⟩
  · obtain ⟨z, hz, rfl⟩ := hfilter.once msg l' _ m' _ r' h ⟨j, rfl⟩ ⟨i, rfl⟩
    exact ⟨l', m', r', .inr h, hz⟩

/-- This holds in every run in which no call finds a hash unknown while another is
between its `Contains` and `Add` of it. -/
theorem broadcasts_apart {s : Hub ι β} {es : List (HubAction ι β)}
    (hrun : Run (Guarded Hub.Exclusive Hub.step) Hub.start es s) : s.BroadcastsApart := by
  obtain ⟨hfilter, haccount⟩ : s.Filtered ∧ s.Accounted :=
    hrun.inv (fun s => s.Filtered ∧ s.Accounted) ⟨Hub.filtered_start, Hub.accounted_start⟩ fun _ _ _ h hs =>
      fanout_step h hs
  exact hfilter.apart haccount

/-- A transaction that two peers send. -/
def sameTx : Msg := ⟨.tx, 7⟩

/-- A client registers. -/
def oneStream : List (HubAction Unit Bool) := [.connect () "a", .stream (), .stream ()]

/-- The second call looks after the first has added the hash. -/
def secondLooksLater : List (HubAction Unit Bool) :=
  oneStream ++ ([.call true sameTx, .call false sameTx, .process true [] true [], .process true [] true [],
    .process false [] true [], .process true [] true [], .process true [] true ["a"],
    .process true [] true []] : List (HubAction Unit Bool))

theorem second_look_finds_hash :
    ∃ s : Hub Unit Bool, Run (Guarded Hub.Exclusive Hub.step) Hub.start secondLooksLater s ∧
      (s.calls false = .returned ∧ s.channel () = [sameTx]) ∧ s.BroadcastsApart := by
  have hfound : ∃ s : Hub Unit Bool, Run (Guarded Hub.Exclusive Hub.step) Hub.start secondLooksLater s ∧
      decide (s.calls false = .returned ∧ s.channel () = [sameTx]) = true := Run.of_guarded (by decide +kernel)
  obtain ⟨s, hrun, hs⟩ := hfound
  exact ⟨s, hrun, of_decide_eq_true hs, broadcasts_apart hrun⟩

/-- Both calls look before either has added the hash. -/
def bothLook : List (HubAction Unit Bool) :=
  oneStream ++ ([.call true sameTx, .call false sameTx, .process true [] true [], .process false [] true [],
    .process true [] true [], .process false [] true [], .process true [] true [], .process false [] true [],
    .process true [] true ["a"], .process false [] true ["a"], .process true [] true [],
    .process false [] true []] : List (HubAction Unit Bool))

/-- The client gets the transaction twice, and nothing was evicted. -/
theorem broadcast_twice :
    ∃ s : Hub Unit Bool, Run (fun s a t => s.step a = some t) Hub.start bothLook s ∧
      s.channel () = [sameTx, sameTx] ∧ ¬ s.BroadcastsApart := by
  have hfound : ∃ s : Hub Unit Bool, Run (fun s a t => s.step a = some t) Hub.start bothLook s ∧
      decide (s.channel () = [sameTx, sameTx] ∧ s.log = [.admitted true sameTx, .admitted false sameTx,
        .broadcast true sameTx, .broadcast false sameTx, .queued true () sameTx, .queued false () sameTx]) = true :=
    Run.of_foldlM (by decide +kernel)
  obtain ⟨s, hrun, hs⟩ := hfound
  obtain ⟨hchannel, hlog⟩ := of_decide_eq_true hs
  refine ⟨s, hrun, hchannel, fun hapart => ?_⟩
  obtain ⟨-, l, m, r, hsplit, hevicted⟩ := hapart true false sameTx [.admitted true sameTx, .admitted false sameTx] []
    [.queued true () sameTx, .queued false () sameTx] (by simp [hlog])
  have hmem : .evicted sameTx ∈ s.log := by
    rcases hsplit with h | h <;> simp [h, hevicted]
  simp [hlog] at hmem

end TurboOctopus.NodeManager
