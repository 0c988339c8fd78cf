import TurboOctopus.Lib.Runs
import TurboOctopus.Lib.Maps
/-!
# The request dispatcher of a peer

One goroutine of the peer sends requests and keeps the pending ones; requesters hand it
requests and cancellations, and the reader hands it responses, over channels without
room. An accepted response is delivered by the reader itself, after the dispatcher has
forgotten the request, so a cancellation can come at any moment of that. What the
dispatcher sends on a `fail` channel is waited for, and goes with the step that takes it.
-/
namespace TurboOctopus.Eth

open Lib Option

/-- What the dispatcher reads of a `Request`: `σ` names the channels responses go to. -/
structure PeerRequest (σ : Type) where
  id : UInt64
  sink : σ
  want : UInt64

/-- What it reads of a `Response`. -/
structure PeerResponse where
  id : UInt64
  code : UInt64

inductive DispatchError
  | disconnected
  | danglingResponse
  | mismatchingResponseType (have_ want : UInt64)
  /-- The network's. -/
  | send
deriving DecidableEq

/-- How far a call of `dispatchRequest` is. -/
inductive RequestAt
  | idle
  | offering
  | waiting
  | returned (err : Option DispatchError)
deriving DecidableEq

/-- How far a call of `Close` is. -/
inductive CloseAt
  | idle
  | offering
  | waiting
  | closing
  | returned (err : Option DispatchError)
deriving DecidableEq

/-- How far a call of `dispatchResponse` is, for requests `ι`. -/
inductive ResponseAt (ι : Type)
  | idle
  | offering
  | waiting
  | refused (err : DispatchError)
  | accepted (r : ι)
  | delivering (r : ι)
  | delivered (r : ι)
  | discarded (r : ι)
deriving DecidableEq

/-- The request a response was accepted for. -/
def ResponseAt.bound {ι : Type} : ResponseAt ι → Option ι
  | .accepted r | .delivering r | .delivered r | .discarded r => some r
  | .idle | .offering | .waiting | .refused _ => none

/-- How far the dispatcher is: with a request, a call of `Close` or a response. -/
inductive DispatcherAt (ι γ ρ : Type)
  | select
  | sending (r : ι)
  | tracking (r : ι)
  | cancelling (c : γ)
  | answering (p : ρ)
  | untracking (id : UInt64)
  | terminated
deriving DecidableEq

inductive DispatchEvent (ι ρ σ : Type)
  | sent (r : ι)
  /-- `Close` of the request, which has its peer, returned nil. -/
  | closed (r : ι)
  /-- The response was not cancelled and is offered to the sink of its request. -/
  | started (p : ρ) (r : ι)
  | delivered (p : ρ) (sink : σ)
deriving DecidableEq

/-- Requests `ι`, calls of `Close` `γ`, responses `ρ` and sinks `σ`; `log` is not in the
source. -/
structure Dispatch (ι γ ρ σ : Type) where
  pending : GoMap UInt64 ι
  dispatcher : DispatcherAt ι γ ρ
  requests : ι → RequestAt
  closes : γ → CloseAt
  responses : ρ → ResponseAt ι
  /-- The `cancel` channel is closed. -/
  cancelled : ι → Bool
  term : Bool
  /-- A channel was closed twice. -/
  crashed : Bool
  log : List (DispatchEvent ι ρ σ)

def Dispatch.start {ι γ ρ σ : Type} : Dispatch ι γ ρ σ where
  pending := ∅
  dispatcher := .select
  requests _ := .idle
  closes _ := .idle
  responses _ := .idle
  cancelled _ := false
  term := false
  crashed := false
  log := []

inductive DispatchAction (ι γ ρ : Type)
  /-- `dispatchRequest` is called, is taken by the dispatcher, ends with the peer. -/
  | request (r : ι)
  | takeRequest (r : ι)
  | requestTerm (r : ι)
  /-- The same of `Close`; then the `cancel` channel is closed. -/
  | close (c : γ)
  | takeClose (c : γ)
  | closeTerm (c : γ)
  | closeChannel (c : γ)
  /-- The same of `dispatchResponse`; then the response is offered, taken, or dropped for a
  cancellation. -/
  | respond (p : ρ)
  | takeResponse (p : ρ)
  | responseTerm (p : ρ)
  | offer (p : ρ)
  | deliver (p : ρ)
  | discard (p : ρ)
  /-- What the dispatcher does with what it took; sending may fail. -/
  | send (ok : Bool)
  | track
  | cancel
  | answer
  | untrack
  /-- The peer is closed, and the dispatcher ends. -/
  | term
  | terminate

section
variable {ι γ ρ σ : Type} [DecidableEq ι] [DecidableEq γ] [DecidableEq ρ]
variable (req : ι → PeerRequest σ) (closeOf : γ → ι) (res : ρ → PeerResponse)

namespace Dispatch

def setRequest (s : Dispatch ι γ ρ σ) (r : ι) (a : RequestAt) : Dispatch ι γ ρ σ :=
  { s with requests := Function.update s.requests r a }

def setClose (s : Dispatch ι γ ρ σ) (c : γ) (a : CloseAt) : Dispatch ι γ ρ σ :=
  { s with closes := Function.update s.closes c a }

def setResponse (s : Dispatch ι γ ρ σ) (p : ρ) (a : ResponseAt ι) : Dispatch ι γ ρ σ :=
  { s with responses := Function.update s.responses p a }

def logged (s : Dispatch ι γ ρ σ) (e : DispatchEvent ι ρ σ) : Dispatch ι γ ρ σ :=
  { s with log := s.log ++ [e] }

/-- What the dispatcher does with what it has taken. -/
def serve (s : Dispatch ι γ ρ σ) : DispatchAction ι γ ρ → Option (Dispatch ι γ ρ σ)
  | .send ok =>
    match s.dispatcher with
    | .sending r =>
      if ok then some (({ s with dispatcher := .tracking r }.setRequest r (.returned none)).logged (.sent r))
      else some ({ s with dispatcher := .select }.setRequest r (.returned (some .send)))
    | _ => none
  | .track =>
    match s.dispatcher with
    | .tracking r => some { s with pending := s.pending.insert (req r).id r, dispatcher := .select }
    | _ => none
  | .cancel =>
    match s.dispatcher with
    | .cancelling c =>
      some ({ s with pending := s.pending.erase (req (closeOf c)).id, dispatcher := .select }.setClose c .closing)
    | _ => none
  | .answer =>
    match s.dispatcher with
    | .answering p =>
      match s.pending.lookup (res p).id with
      | none => some ({ s with dispatcher := .select }.setResponse p (.refused .danglingResponse))
      | some r =>
        if (req r).want ≠ (res p).code then
          some ({ s with dispatcher := .select }.setResponse p
            (.refused (.mismatchingResponseType (res p).code (req r).want)))
        else some ({ s with dispatcher := .untracking (res p).id }.setResponse p (.accepted r))
    | _ => none
  | .untrack =>
    match s.dispatcher with
    | .untracking id => some { s with pending := s.pending.erase id, dispatcher := .select }
    | _ => none
  | .terminate => if s.dispatcher = .select ∧ s.term then some { s with dispatcher := .terminated } else none
  | _ => none

/-- What the reader does with a response that was accepted. -/
def deliverResponse (s : Dispatch ι γ ρ σ) : DispatchAction ι γ ρ → Option (Dispatch ι γ ρ σ)
  | .offer p =>
    match s.responses p with
    | .accepted r =>
      if s.cancelled r then some (s.setResponse p (.discarded r))
      else some ((s.setResponse p (.delivering r)).logged (.started p r))
    | _ => none
  | .deliver p =>
    match s.responses p with
    | .delivering r => some ((s.setResponse p (.delivered r)).logged (.delivered p (req r).sink))
    | _ => none
  | .discard p =>
    match s.responses p with
    | .delivering r => if s.cancelled r then some (s.setResponse p (.discarded r)) else none
    | _ => none
  | _ => none

/-- `Close` closes the `cancel` channel, which must not be closed already. -/
def closeChannel (s : Dispatch ι γ ρ σ) (c : γ) : Option (Dispatch ι γ ρ σ) :=
  if s.closes c = .closing then
    if s.cancelled (closeOf c) then some { s with crashed := true }
    else
      some (({ s with cancelled := Function.update s.cancelled (closeOf c) true }.setClose c (.returned none)).logged
        (.closed (closeOf c)))
  else none

/-- `dispatchRequest` gives the request its peer before anything else. -/
def act (s : Dispatch ι γ ρ σ) : DispatchAction ι γ ρ → Option (Dispatch ι γ ρ σ)
  | .request r => if s.requests r = .idle then some (s.setRequest r .offering) else none
  | .takeRequest r =>
    if s.requests r = .offering ∧ s.dispatcher = .select then
      some ({ s with dispatcher := .sending r }.setRequest r .waiting)
    else none
  | .requestTerm r =>
    if s.requests r = .offering ∧ s.term then some (s.setRequest r (.returned (some .disconnected))) else none
  | .close c =>
    if s.closes c = .idle then
      -- a request without a peer is one of tests, which have no dispatcher
      if s.requests (closeOf c) = .idle then some (s.setClose c (.returned none))
      else some (s.setClose c .offering)
    else none
  | .takeClose c =>
    if s.closes c = .offering ∧ s.dispatcher = .select then
      some ({ s with dispatcher := .cancelling c }.setClose c .waiting)
    else none
  | .closeTerm c =>
    if s.closes c = .offering ∧ s.term then some (s.setClose c (.returned (some .disconnected))) else none
  | .closeChannel c => s.closeChannel closeOf c
  | .respond p => if s.responses p = .idle then some (s.setResponse p .offering) else none
  | .takeResponse p =>
    if s.responses p = .offering ∧ s.dispatcher = .select then
      some ({ s with dispatcher := .answering p }.setResponse p .waiting)
    else none
  | .responseTerm p =>
    if s.responses p = .offering ∧ s.term then some (s.setResponse p (.refused .disconnected)) else none
  | .offer p => s.deliverResponse req (.offer p)
  | .deliver p => s.deliverResponse req (.deliver p)
  | .discard p => s.deliverResponse req (.discard p)
  | .send ok => s.serve req closeOf res (.send ok)
  | .track => s.serve req closeOf res .track
  | .cancel => s.serve req closeOf res .cancel
  | .answer => s.serve req closeOf res .answer
  | .untrack => s.serve req closeOf res .untrack
  | .terminate => s.serve req closeOf res .terminate
  | .term => some { s with term := true }

def step (s : Dispatch ι γ ρ σ) (a : DispatchAction ι γ ρ) : Option (Dispatch ι γ ρ σ) :=
  if s.crashed then none else s.act req closeOf res a

/-- `s` can become this. The calls of `Close`, `term` and `crashed` decide what is done
next, and nothing of what is done. -/
inductive Effect (s : Dispatch ι γ ρ σ) : Dispatch ι γ ρ σ → Prop
  | quiet (cs : γ → CloseAt) (term crashed : Bool) : s.Effect { s with closes := cs, term := term, crashed := crashed }
  | request {r : ι} (a : RequestAt) (hr : s.requests r = .idle ∨ s.requests r = .offering) :
      s.Effect (s.setRequest r a)
  | takeRequest {r : ι} (hr : s.requests r = .offering) (hd : s.dispatcher = .select) :
      s.Effect ({ s with dispatcher := .sending r }.setRequest r .waiting)
  | sent {r : ι} (hd : s.dispatcher = .sending r) :
      s.Effect (({ s with dispatcher := .tracking r }.setRequest r (.returned none)).logged (.sent r))
  | notSent {r : ι} (err : DispatchError) (hd : s.dispatcher = .sending r) :
      s.Effect ({ s with dispatcher := .select }.setRequest r (.returned (some err)))
  | track {r : ι} (hd : s.dispatcher = .tracking r) :
      s.Effect { s with pending := s.pending.insert (req r).id r, dispatcher := .select }
  | takeClose (c : γ) (cs : γ → CloseAt) (hd : s.dispatcher = .select) :
      s.Effect { s with dispatcher := .cancelling c, closes := cs }
  | cancel {c : γ} (id : UInt64) (cs : γ → CloseAt) (hd : s.dispatcher = .cancelling c) :
      s.Effect { s with pending := s.pending.erase id, dispatcher := .select, closes := cs }
  | closed (r : ι) (cs : γ → CloseAt) :
      s.Effect ({ s with cancelled := Function.update s.cancelled r true, closes := cs }.logged (.closed r))
  | respond {p : ρ} (a : ResponseAt ι) (ha : a.bound = none)
      (hp : s.responses p = .idle ∨ s.responses p = .offering) : s.Effect (s.setResponse p a)
  | takeResponse {p : ρ} (hp : s.responses p = .offering) (hd : s.dispatcher = .select) :
      s.Effect ({ s with dispatcher := .answering p }.setResponse p .waiting)
  | refuse {p : ρ} (err : DispatchError) (hd : s.dispatcher = .answering p) :
      s.Effect ({ s with dispatcher := .select }.setResponse p (.refused err))
  | accept {p : ρ} {r : ι} (hd : s.dispatcher = .answering p) (hr : s.pending.lookup (res p).id = some r)
      (hw : (req r).want = (res p).code) :
      s.Effect ({ s with dispatcher := .untracking (res p).id }.setResponse p (.accepted r))
  | untrack {id : UInt64} (hd : s.dispatcher = .untracking id) :
      s.Effect { s with pending := s.pending.erase id, dispatcher := .select }
  | start {p : ρ} {r : ι} (hp : s.responses p = .accepted r) (hr : s.cancelled r = false) :
      s.Effect ((s.setResponse p (.delivering r)).logged (.started p r))
  | deliver {p : ρ} {r : ι} (hp : s.responses p = .delivering r) :
      s.Effect ((s.setResponse p (.delivered r)).logged (.delivered p (req r).sink))
  | discard {p : ρ} {r : ι} (hp : s.responses p = .accepted r ∨ s.responses p = .delivering r) :
      s.Effect (s.setResponse p (.discarded r))
  | terminate (hd : s.dispatcher = .select) : s.Effect { s with dispatcher := .terminated }

end Dispatch

variable {req res} {s t : Dispatch ι γ ρ σ}

lemma Dispatch.effect_of_serve (a : DispatchAction ι γ ρ) (h : s.serve req closeOf res a = some t) :
    s.Effect req res t := by
  unfold Dispatch.serve at h
  split at h
  · split at h
    next r hd =>
      split at h <;> cases h
      · exact .sent hd
      · exact .notSent _ hd
    · cases h
  · split at h <;> cases h
    exact .track ‹_›
  · split at h <;> cases h
    exact .cancel _ _ ‹_›
  · split at h
    next p hd =>
      split at h
      · cases h
        exact .refuse _ hd
      · split at h <;> cases h
        · exact .refuse _ hd
        · exact .accept hd ‹_› (not_not.1 ‹_›)
    · cases h
  · split at h <;> cases h
    exact .untrack ‹_›
  · split at h <;> cases h
    exact .terminate (And.left ‹_›)
  · cases h

omit [DecidableEq γ] in
lemma Dispatch.effect_of_deliverResponse (a : DispatchAction ι γ ρ) (h : s.deliverResponse req a = some t) :
    s.Effect req res t := by
  unfold Dispatch.deliverResponse at h
  split at h
  · split at h
    next r hp =>
      split at h <;> cases h
      · exact .discard (.inl hp)
      · exact .start hp (Bool.eq_false_iff.2 ‹_›)
    · cases h
  · split at h <;> cases h
    exact .deliver ‹_›
  · split at h
    next r hp =>
      split at h <;> cases h
      exact .discard (.inr hp)
    · cases h
  · cases h

lemma Dispatch.effect_of_act {a : DispatchAction ι γ ρ} (h : s.act req closeOf res a = some t) :
    s.Effect req res t := by
  cases a with
  | request r =>
    obtain ⟨hr, ⟨⟩⟩ := ite_none_right_eq_some.1 h
    exact .request _ (.inl hr)
  | takeRequest r =>
    obtain ⟨hr, ⟨⟩⟩ := ite_none_right_eq_some.1 h
    exact .takeRequest hr.1 hr.2
  | requestTerm r =>
    obtain ⟨hr, ⟨⟩⟩ := ite_none_right_eq_some.1 h
    exact .request _ (.inr hr.1)
  | close c =>
    obtain ⟨-, h⟩ := ite_none_right_eq_some.1 h
    split at h <;> cases h <;> exact .quiet _ _ _
  | takeClose c =>
    obtain ⟨hc, ⟨⟩⟩ := ite_none_right_eq_some.1 h
    exact .takeClose c _ hc.2
  | closeTerm c =>
    obtain ⟨-, ⟨⟩⟩ := ite_none_right_eq_some.1 h
    exact .quiet _ _ _
  | closeChannel c =>
    obtain ⟨-, h⟩ := ite_none_right_eq_some.1 h
    split at h <;> cases h
    · exact .quiet _ _ _
    · exact .closed _ _
  | respond p =>
    obtain ⟨hp, ⟨⟩⟩ := ite_none_right_eq_some.1 h
    exact .respond _ rfl (.inl hp)
  | takeResponse p =>
    obtain ⟨hp, ⟨⟩⟩ := ite_none_right_eq_some.1 h
    exact .takeResponse hp.1 hp.2
  | responseTerm p =>
    obtain ⟨hp, ⟨⟩⟩ := ite_none_right_eq_some.1 h
    exact .respond _ rfl (.inr hp.1)
  | offer p => exact effect_of_deliverResponse (.offer p) h
  | deliver p => exact effect_of_deliverResponse (.deliver p) h
  | discard p => exact effect_of_deliverResponse (.discard p) h
  | send ok => exact effect_of_serve closeOf (.send ok) h
  | track => exact effect_of_serve closeOf .track h
  | cancel => exact effect_of_serve closeOf .cancel h
  | answer => exact effect_of_serve closeOf .answer h
  | untrack => exact effect_of_serve closeOf .untrack h
  | terminate => exact effect_of_serve closeOf .terminate h
  | term => cases h; exact .quiet _ _ _

variable (req res) in
/-- One step of any of the peer's goroutines. -/
def DispatchStep (s : Dispatch ι γ ρ σ) (a : DispatchAction ι γ ρ) (t : Dispatch ι γ ρ σ) : Prop :=
  s.step req closeOf res a = some t

variable {closeOf} in
lemma effect_of_dispatchStep {a : DispatchAction ι γ ρ} (h : DispatchStep req closeOf res s a t) :
    s.Effect req res t := by
  unfold DispatchStep Dispatch.step at h
  split at h
  · cases h
  · exact Dispatch.effect_of_act closeOf h

end

end TurboOctopus.Eth
