import TurboOctopus.Lib.Runs
/-!
# Sending transactions to all peers

`HandSendTx` starts a goroutine for each peer. The range variable `peer` is one for all
of them, so a goroutine sends to the peer the loop has come to when it runs. If the loop
has gone on, a peer is left out and another served twice (`last_peer_twice`); where each
goroutine sends before the next round, all are served (`prompt_sends_reach_all`).
-/
namespace TurboOctopus.NodeManager

open Lib

variable {P T : Type}

/-- The loop over the peers and what its goroutines have sent. -/
structure SendLoop (P T : Type) where
  rest : List P
  /-- The range variable. -/
  peer : Option P
  /-- The goroutines that have not read it yet. -/
  started : Nat
  calls : List (P × List T)

inductive SendStep
  | next
  | send

def SendLoop.step (txs : List T) (s : SendLoop P T) : SendStep → Option (SendLoop P T)
  | .next =>
    match s.rest with
    | [] => none
    | p :: rest => some { s with rest := rest, peer := some p, started := s.started + 1 }
  | .send =>
    match s.started, s.peer with
    | n + 1, some p => some { s with started := n, calls := s.calls ++ [(p, txs)] }
    | _, _ => none

/-- The status of the answer, the transactions and the loop; `allPeers` is in the order
of the range. -/
def handSendTx (unmarshalBinary : List UInt8 → Option T) (txHex : List (List UInt8)) (allPeers : List P) :
    Nat × List T × SendLoop P T :=
  match txHex.mapM unmarshalBinary with
  | none => (1, [], ⟨[], none, 0, []⟩)
  | some txs => (0, txs, ⟨if txs.length > 0 then allPeers else [], none, 0, []⟩)

/-- The goroutines started have sent when the loop goes on. -/
def SendLoop.Prompt (s : SendLoop P T) (e : SendStep) : Prop := e = .next → s.started = 0

/-- Every peer visited has been served, but for the one of this round. -/
def SendLoop.Served (txs : List T) (peers : List P) (s : SendLoop P T) : Prop :=
  ∃ done, s.calls = done.map (·, txs) ∧
    (s.started = 0 ∧ peers = done ++ s.rest ∨ ∃ p, s.started = 1 ∧ s.peer = some p ∧ peers = done ++ p :: s.rest)

lemma SendLoop.Served.step {txs : List T} {peers : List P} {s t : SendLoop P T} {e : SendStep} (h : s.Served txs peers)
    (hstep : Guarded SendLoop.Prompt (SendLoop.step txs) s e t) : t.Served txs peers := by
  obtain ⟨hprompt, hstep⟩ := hstep
  obtain ⟨done, hcalls, hdone⟩ := h
  cases e with
  | next =>
    obtain ⟨-, hpeers⟩ | ⟨p, hone, -⟩ := hdone
    · simp only [SendLoop.step] at hstep
      split at hstep
      · cases hstep
      next p rest hrest =>
        cases hstep
        exact ⟨done, hcalls, .inr ⟨p, congrArg (· + 1) (hprompt rfl), rfl, hrest ▸ hpeers⟩⟩
    · cases (hprompt rfl).symm.trans hone
  | send =>
    obtain ⟨hzero, -⟩ | ⟨p, hone, hpeer, hpeers⟩ := hdone
    · simp [SendLoop.step, hzero] at hstep
    · simp only [SendLoop.step, hone, hpeer, Option.some.injEq] at hstep
      subst hstep
      exact ⟨done ++ [p], by simp [hcalls], .inl ⟨rfl, by simp [hpeers]⟩⟩

/-- Each peer gets the decoded transactions, in one call. -/
theorem prompt_sends_reach_all {unmarshalBinary : List UInt8 → Option T} {txHex : List (List UInt8)} {txs : List T}
    {allPeers : List P} {es : List SendStep} {s : SendLoop P T} (hdecode : txHex.mapM unmarshalBinary = some txs)
    (hne : txs ≠ []) (hrun : Run (Guarded SendLoop.Prompt (SendLoop.step txs)) (handSendTx unmarshalBinary txHex allPeers).2.2 es s)
    (hrest : s.rest = []) (hstarted : s.started = 0) : s.calls = allPeers.map (·, txs) := by
  have hstart : (handSendTx unmarshalBinary txHex allPeers).2.2.Served txs allPeers := by
    rw [handSendTx, hdecode]
    exact ⟨[], rfl, .inl ⟨rfl, (if_pos (List.length_pos_iff.2 hne)).symm⟩⟩
  obtain ⟨done, hcalls, ⟨-, hpeers⟩ | ⟨p, hone, -⟩⟩ := Run.inv _ hrun hstart fun _ _ _ h hstep => h.step hstep
  · rw [hcalls, hpeers, hrest, List.append_nil]
  · cases hstarted.symm.trans hone

theorem prompt_sends_reach_two : ∃ s : SendLoop Nat (List UInt8), Run (Guarded SendLoop.Prompt (SendLoop.step [[7]]))
    (handSendTx some [[7]] [1, 2]).2.2 [.next, .send, .next, .send] s ∧ s.calls = [(1, [[7]]), (2, [[7]])] := by
  have hrun : Run (Guarded SendLoop.Prompt (SendLoop.step [[7]])) (handSendTx some [[7]] [1, 2]).2.2
      [.next, .send, .next, .send] ⟨[], some 2, 0, [(1, [[7]]), (2, [[7]])]⟩ :=
    .cons ⟨fun _ => rfl, rfl⟩ (.cons ⟨nofun, rfl⟩ (.cons ⟨fun _ => rfl, rfl⟩ (.cons ⟨nofun, rfl⟩ (.nil _))))
  exact ⟨_, hrun, prompt_sends_reach_all rfl (by simp) hrun rfl rfl⟩

/-- The loop ends before the goroutines run. -/
theorem last_peer_twice : ∃ s : SendLoop Nat (List UInt8), Run (fun s e t => SendLoop.step [[7]] s e = some t)
    (handSendTx some [[7]] [1, 2]).2.2 [.next, .next, .send, .send] s ∧ s.rest = [] ∧ s.started = 0 ∧
    s.calls = [(2, [[7]]), (2, [[7]])] :=
  ⟨_, .cons rfl (.cons rfl (.cons rfl (.cons rfl (.nil _)))), rfl, rfl, rfl⟩

end TurboOctopus.NodeManager
