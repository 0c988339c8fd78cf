import TurboOctopus.NodeManager.Streams
/-!
# Registration of streams

A call of `HandStartStream` that is in its serve loop should have its own channel
under its name, so that every broadcast reaches it. `Has` and `Set` are two
operations, and two clients of one name can both pass the first: the second `Set`
then takes the name away, and whoever leaves first removes it for both
(`one_name_twice`). As long as no call passes `Has` while another of its name stands
before `Set`, each serving call keeps its name (`registered_while_serving`).
-/
namespace TurboOctopus.NodeManager

open Lib TurboOctopus.Types Function

/-- The name of a call that is about to look for it. -/
def StreamAt.asking : StreamAt → Option String
  | .has name => some name
  | .idle | .set _ | .serving _ | .leaving _ | .returned => none

/-- The name of a call between its `Set` and its `Remove`. -/
def StreamAt.entered : StreamAt → Option String
  | .serving name | .leaving name => some name
  | .idle | .has _ | .set _ | .returned => none

variable {ι β : Type} [DecidableEq ι] [DecidableEq β]

/-- No call passes `Has` while another of its name is between `Has` and `Set`. -/
def Hub.Alone (s : Hub ι β) : HubAction ι β → Prop
  | .stream i => ∀ name ∈ (s.streams i).asking, name ∈ s.serverPeer ∨ ∀ j, s.streams j ≠ .set name
  | .connect _ _ | .receive _ | .deliver _ _ _ | .closeStream _ | .call _ _ | .process _ _ _ _ => True

instance [Fintype ι] (s : Hub ι β) : (a : HubAction ι β) → Decidable (s.Alone a)
  | .stream i => inferInstanceAs (Decidable (∀ name ∈ (s.streams i).asking, name ∈ s.serverPeer ∨ ∀ _, _ ≠ _))
  | .connect _ _ | .receive _ | .deliver _ _ _ | .closeStream _ | .call _ _ | .process _ _ _ _ =>
    inferInstanceAs (Decidable True)

/-! ## Each name is one call's -/

/-- A name is free for the call that is about to take it, no second call is, and it is
that call's until the call gives it back. -/
structure Hub.Registered (s : Hub ι β) : Prop where
  held : ∀ i name, (s.streams i).entered = some name → s.serverPeer.lookup name = some ⟨name, i⟩
  free : ∀ i name, s.streams i = .set name → name ∉ s.serverPeer
  single : ∀ i j name, s.streams i = .set name → s.streams j = .set name → i = j

section Registered
variable {s t : Hub ι β}

section
omit [DecidableEq ι] [DecidableEq β]

lemma Hub.Registered.of_eq (h : s.Registered) (hp : t.serverPeer = s.serverPeer) (hs : t.streams = s.streams) :
    t.Registered where
  held := by rw [hp, hs]; exact h.held
  free := by rw [hp, hs]; exact h.free
  single := by rw [hs]; exact h.single

lemma Hub.registered_start : (Hub.start : Hub ι β).Registered where
  held i name h := by cases h
  free i name h := by cases h
  single i j name h := by cases h

end

omit [DecidableEq β] in
/-- A call may go on as it likes as long as it takes no name and gives none back. -/
lemma Hub.Registered.setStream (h : s.Registered) (i : ι) (a : StreamAt)
    (hheld : ∀ name, a.entered = some name → s.serverPeer.lookup name = some ⟨name, i⟩)
    (hset : ∀ name, a = .set name → name ∉ s.serverPeer ∧ ∀ j, s.streams j ≠ .set name) :
    (s.setStream i a).Registered := by
  have hstreams : ∀ j, (s.setStream i a).streams j = if j = i then a else s.streams j := fun j => by
    simp [Hub.setStream, update_apply]
  constructor
  · intro j name hj
    rw [hstreams] at hj
    split at hj
    · next hji => exact hji ▸ hheld name hj
    · exact h.held j name hj
  · intro j name hj
    rw [hstreams] at hj
    split at hj
    · exact (hset name hj).1
    · exact h.free j name hj
  · intro j k name hj hk
    rw [hstreams] at hj hk
    split at hj <;> split at hk
    · next hji hki => exact hji.trans hki.symm
    · exact absurd hk ((hset name hj).2 k)
    · exact absurd hj ((hset name hk).2 j)
    · exact h.single j k name hj hk

variable {name : String}

section
omit [DecidableEq β]

/-- `Set`: nobody else has the name. -/
lemma Hub.Registered.enter {i : ι} (h : s.Registered) (hi : s.streams i = .set name) :
    ({ s with serverPeer := s.serverPeer.insert name ⟨name, i⟩ }.setStream i (.serving name)).Registered := by
  have hfree : s.serverPeer.lookup name = none := Finmap.lookup_eq_none.2 (h.free i name hi)
  constructor
  · intro j n hj
    by_cases hji : j = i
    · subst hji
      simp only [Hub.setStream, update_self, StreamAt.entered, Option.some.injEq] at hj
      subst hj
      exact lookup_insert_iff.2 (.inl ⟨rfl, rfl⟩)
    · simp only [Hub.setStream, update_of_ne hji] at hj
      have hold := h.held j n hj
      refine lookup_insert_iff.2 (.inr ⟨?_, hold⟩)
      rintro rfl
      rw [hfree] at hold
      cases hold
  · intro j n hj hmem
    obtain ⟨hji, hj⟩ := of_update_eq (by simp) hj
    rcases Finmap.mem_insert.1 hmem with rfl | hmem
    · exact hji (h.single j i _ hj hi)
    · exact h.free j n hj hmem
  · intro j k n hj hk
    exact h.single j k n (of_update_eq (by simp) hj).2 (of_update_eq (by simp) hk).2

/-- `Remove`: what is removed is the call's own. -/
lemma Hub.Registered.leave {i : ι} (h : s.Registered) (hi : s.streams i = .leaving name) :
    ({ s with serverPeer := s.serverPeer.erase name }.setStream i .returned).Registered := by
  have hown := h.held i name (by rw [hi]; rfl)
  constructor
  · intro j n hj
    by_cases hji : j = i
    · subst hji
      simp [Hub.setStream, StreamAt.entered] at hj
    · simp only [Hub.setStream, update_of_ne hji] at hj
      have hold := h.held j n hj
      refine lookup_erase_iff.2 ⟨?_, hold⟩
      rintro rfl
      rw [hown] at hold
      cases hold
      exact hji rfl
  · intro j n hj hmem
    exact h.free j n (of_update_eq (by simp) hj).2 (Finmap.mem_erase.1 hmem).2
  · intro j k n hj hk
    exact h.single j k n (of_update_eq (by simp) hj).2 (of_update_eq (by simp) hk).2

end

lemma Hub.Registered.step {a : HubAction ι β} (h : s.Registered) (hs : Guarded Hub.Alone Hub.step s a t) :
    t.Registered := by
  obtain ⟨hok, hs⟩ := hs
  cases a with
  | connect i name =>
    simp only [Hub.step] at hs
    split at hs <;> cases hs
    exact h.setStream i _ (by simp [StreamAt.entered]) (by simp)
  | stream i =>
    simp only [Hub.step, Hub.handStartStream] at hs
    split at hs
    · next name hi =>
      cases hs
      split
      · exact h.setStream i _ (by simp [StreamAt.entered]) (by simp)
      · next hfree =>
        refine h.setStream i _ (by simp [StreamAt.entered]) fun n hn => ?_
        cases hn
        have hasking := hok name (by rw [hi]; rfl)
        exact ⟨hfree, hasking.resolve_left hfree⟩
    · next name hi =>
      cases hs
      exact h.enter hi
    · next name hi =>
      cases hs
      exact h.leave hi
    all_goals cases hs
  | closeStream i =>
    simp only [Hub.step, Hub.closeStream] at hs
    split at hs
    · next name hi =>
      split at hs <;> cases hs
      have hbase : { s with closers := Function.update s.closers i (s.closers i - 1) }.Registered := h.of_eq rfl rfl
      refine hbase.setStream i _ (fun n hn => ?_) (by simp)
      cases hn
      exact h.held i name (by rw [hi]; rfl)
    · cases hs
  | receive | deliver | call =>
    simp only [Hub.step, Hub.receive, Hub.deliver] at hs
    split at hs <;> cases hs
    exact h.of_eq rfl rfl
  | process j popped encodes order =>
    obtain ⟨hp, hstreams⟩ := (Hub.processed hs).frame
    exact h.of_eq hp hstreams

end Registered

/-! ## A broadcast reaches every stream it was taken for -/

/-- Call `j` has still to put the message on the channel of call `i`, or has done so. -/
def Hub.Reaching (j : β) (i : ι) (msg : Msg) (s : Hub ι β) : Prop :=
  (∃ targets, s.calls j = .sending msg targets ∧ ∃ peer ∈ targets, peer.streamChan = i) ∨ .queued j i msg ∈ s.log

section Reaching
variable {s t : Hub ι β} {j : β} {i : ι} {msg : Msg}

lemma Hub.Reaching.step {a : HubAction ι β} (h : s.Reaching j i msg) (hs : s.step a = some t) :
    t.Reaching j i msg := by
  by_cases hcall : ∃ k m, a = .call k m
  · obtain ⟨k, m, rfl⟩ := hcall
    simp only [Hub.step] at hs
    split at hs <;> cases hs
    rcases h with ⟨targets, hj, hi⟩ | h
    · refine .inl ⟨targets, ?_, hi⟩
      rw [← hj]
      refine update_of_ne ?_ _ _
      rintro rfl
      simp_all
    · exact .inr h
  by_cases hprocess : ∃ k popped encodes order, a = .process k popped encodes order
  · obtain ⟨k, popped, encodes, order, rfl⟩ := hprocess
    have hp := Hub.processed hs
    obtain ⟨es, hlog⟩ := hp.log
    rcases h with ⟨targets, hj, peer, hpeer, rfl⟩ | h
    · by_cases hjk : j = k
      · subst hjk
        -- the call itself takes its next target
        cases hp with
        | send m p rest hm =>
          obtain ⟨rfl, rfl⟩ := CallAt.sending.inj (hj.symm.trans hm)
          rcases List.mem_cons.1 hpeer with rfl | hpeer
          · exact .inr (by simp [Hub.setCall, Hub.logged])
          · exact .inl ⟨rest, by simp [Hub.setCall], peer, hpeer, rfl⟩
        | finish m hm =>
          obtain ⟨-, rfl⟩ := CallAt.sending.inj (hj.symm.trans hm)
          cases hpeer
        | known m hm | unknown m hm | add m _ _ hm | marshal m _ hm | iterate m _ hm => cases hj.symm.trans hm
      · exact .inl ⟨targets, (hp.other hjk).trans hj, peer, hpeer, rfl⟩
    · exact .inr (hlog ▸ List.mem_append_left es h)
  · obtain ⟨-, hcalls, hlog⟩ := Hub.stream_frame hs (fun k m ha => hcall ⟨k, m, ha⟩)
      (fun k p e o ha => hprocess ⟨k, p, e, o, ha⟩)
    simpa only [Hub.Reaching, hcalls, hlog] using h

omit [DecidableEq ι] [DecidableEq β] in
lemma Hub.Reaching.of_returned (h : s.Reaching j i msg) (hj : s.calls j = .returned) : .queued j i msg ∈ s.log := by
  rcases h with ⟨targets, hsend, -⟩ | h
  · cases hj.symm.trans hsend
  · exact h

/-- The list of streams that a call takes has every serving one. -/
lemma Hub.Registered.reaching {popped : List Hash} {encodes : Bool} {order : List String}
    (h : s.Registered) (hi : s.streams i = .serving name) (hj : s.calls j = .iterate msg)
    (hs : s.process j popped encodes order = some t) : t.Reaching j i msg := by
  have hheld := h.held i name (by rw [hi]; rfl)
  cases Hub.processed hs with
  | iterate m order hm horder =>
    obtain rfl := CallAt.iterate.inj (hj.symm.trans hm)
    refine .inl ⟨order.filterMap s.serverPeer.lookup, update_self _ _ _, ⟨name, i⟩, ?_, rfl⟩
    exact List.mem_filterMap.2 ⟨name, horder.mem_iff.2 (Finmap.mem_iff.2 ⟨_, hheld⟩), hheld⟩
  | known m hm | unknown m hm | add m _ _ hm | marshal m _ hm | finish m hm | send m _ _ hm => cases hj.symm.trans hm

end Reaching

/-- In every run in which no call passes `Has` while another of its name is about to
`Set`: a serving call has its channel under its name, no two serve under one name,
what a leaving call removes is its own, and a message is on the channels of all calls
that were serving when it was broadcast by the time the broadcast returns. -/
theorem registered_while_serving {s : Hub ι β} {es : List (HubAction ι β)}
    (hrun : Run (Guarded Hub.Alone Hub.step) Hub.start es s) :
    (∀ i name, s.streams i = .serving name → s.serverPeer.lookup name = some ⟨name, i⟩) ∧
    (∀ i j name, s.streams i = .serving name → s.streams j = .serving name → i = j) ∧
    (∀ i name, s.streams i = .leaving name → s.serverPeer.lookup name = some ⟨name, i⟩) ∧
    ∀ i name, s.streams i = .serving name → ∀ j msg popped encodes order t fs u, s.calls j = .iterate msg →
      s.step (.process j popped encodes order) = some t → Run (fun s a t => s.step a = some t) t fs u →
      u.calls j = .returned → .queued j i msg ∈ u.log := by
  have h : s.Registered := hrun.inv _ Hub.registered_start fun _ _ _ h hs => h.step hs
  refine ⟨fun i name hi => h.held i name (by rw [hi]; rfl), fun i j name hi hj => ?_,
    fun i name hi => h.held i name (by rw [hi]; rfl), ?_⟩
  · have hsame := (h.held i name (by rw [hi]; rfl)).symm.trans (h.held j name (by rw [hj]; rfl))
    cases hsame
    rfl
  · intro i name hi j msg popped encodes order t fs u hj hs hfs hu
    have hreach : u.Reaching j i msg := hfs.inv _ (h.reaching hi hj hs) fun _ _ _ h hs => h.step hs
    exact hreach.of_returned hu

/-- A transaction that is on its way to the streams. -/
def someTx : Msg := ⟨.tx, 7⟩

/-- Two clients of different names, and a transaction up to its broadcast. -/
def twoNames : List (HubAction Bool Unit) :=
  [.connect true "a", .connect false "b", .stream true, .stream false, .stream true, .stream false,
   .call () someTx, .process () [] true [], .process () [] true [], .process () [] true []]

theorem two_names_registered :
    ∃ s : Hub Bool Unit, Run (Guarded Hub.Alone Hub.step) Hub.start twoNames s ∧
      (s.streams true = .serving "a" ∧ s.streams false = .serving "b" ∧ s.calls () = .iterate someTx) ∧
      (∀ i name, s.streams i = .serving name → s.serverPeer.lookup name = some ⟨name, i⟩) ∧
      (∀ i j name, s.streams i = .serving name → s.streams j = .serving name → i = j) ∧
      (∀ i name, s.streams i = .leaving name → s.serverPeer.lookup name = some ⟨name, i⟩) ∧
      ∀ i name, s.streams i = .serving name → ∀ j msg popped encodes order t fs u, s.calls j = .iterate msg →
        s.step (.process j popped encodes order) = some t → Run (fun s a t => s.step a = some t) t fs u →
        u.calls j = .returned → .queued j i msg ∈ u.log := by
  have hfound : ∃ s : Hub Bool Unit, Run (Guarded Hub.Alone Hub.step) Hub.start twoNames s ∧
      decide (s.streams true = .serving "a" ∧ s.streams false = .serving "b" ∧ s.calls () = .iterate someTx) = true :=
    Run.of_guarded (by decide +kernel)
  obtain ⟨s, hrun, hs⟩ := hfound
  exact ⟨s, hrun, of_decide_eq_true hs, registered_while_serving hrun⟩

/-- Two clients of one name: both pass `Has`, and then both `Set`. -/
def oneName : List (HubAction Bool Unit) :=
  [.connect true "a", .connect false "a", .stream true, .stream false, .stream true, .stream false]

/-- A transaction is broadcast, its delivery fails, and the call that has the name
leaves. -/
def oneLeaves : List (HubAction Bool Unit) :=
  [.call () someTx, .process () [] true [], .process () [] true [], .process () [] true [],
   .process () [] true ["a"], .process () [] true [], .process () [] true [],
   .receive false, .deliver false someTx true, .closeStream false, .stream false]

/-- Both serve under the name, which has the channel of one only; the other misses the
broadcast, and when the one leaves it serves on without a registration. -/
theorem one_name_twice :
    (∃ s : Hub Bool Unit, Run (fun s a t => s.step a = some t) Hub.start oneName s ∧
      s.streams true = .serving "a" ∧ s.streams false = .serving "a" ∧
      s.serverPeer.lookup "a" = some ⟨"a", false⟩) ∧
    ∃ s : Hub Bool Unit, Run (fun s a t => s.step a = some t) Hub.start (oneName ++ oneLeaves) s ∧
      s.streams true = .serving "a" ∧ s.calls () = .returned ∧ .queued () true someTx ∉ s.log ∧
      "a" ∉ s.serverPeer := by
  constructor
  · have hfound : ∃ s : Hub Bool Unit, Run (fun s a t => s.step a = some t) Hub.start oneName s ∧
        decide (s.streams true = .serving "a" ∧ s.streams false = .serving "a" ∧
          s.serverPeer.lookup "a" = some ⟨"a", false⟩) = true := Run.of_foldlM (by decide +kernel)
    obtain ⟨s, hrun, hs⟩ := hfound
    exact ⟨s, hrun, of_decide_eq_true hs⟩
  · have hfound : ∃ s : Hub Bool Unit, Run (fun s a t => s.step a = some t) Hub.start (oneName ++ oneLeaves) s ∧
        decide (s.streams true = .serving "a" ∧ s.calls () = .returned ∧ .queued () true someTx ∉ s.log ∧
          "a" ∉ s.serverPeer) = true := Run.of_foldlM (by decide +kernel)
    obtain ⟨s, hrun, hs⟩ := hfound
    exact ⟨s, hrun, of_decide_eq_true hs⟩

end TurboOctopus.NodeManager
