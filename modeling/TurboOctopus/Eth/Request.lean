import TurboOctopus.Lib.Runs
import TurboOctopus.Eth.Peer
/-!
# A request beside the message loop

`RequestBlocks` sends two requests and only then starts to track their id, while
the message loop of the peer may already handle the responses. Here the two are
goroutines that share `receiveBlocks`, and a step is one send or one access to
what they share. The entries are Go pointers: the map gives a `Ref`, and what is
written through it is seen by whoever holds the same one.

The loop may handle responses with other ids at any time. When the id is tracked
before the loop looks up either of the two responses, the block is handed on once
and the entry is gone; when it is not, and the id was free, the block is lost and
the entry stays (`delivered_once_iff_tracked_first`). The program calls
`RequestBlocks` in the message loop itself, which does not look up anything
meanwhile.
-/
namespace TurboOctopus.Eth

open Lib TurboOctopus.Types List Finmap

/-- A pointer to a `recvBlockInfo`. -/
abbrev Ref := Nat

structure Response where
  id : UInt64
  part : Part
deriving DecidableEq

/-- One request: the id that was drawn for it, and what the peer answers. -/
structure Ask where
  id : UInt64
  header : Header
  body : BlockBody

def Ask.headerResponse (A : Ask) : Response := ⟨A.id, .header [A.header]⟩
def Ask.bodyResponse (A : Ask) : Response := ⟨A.id, .body [A.body]⟩
def Ask.block (A : Ask) : Block := blockOf A.header A.body

/-- How far `RequestBlocks` has come. -/
inductive Requester
  | start
  | headerSent
  | bodySent
  | done
deriving DecidableEq

/-- What the loop does next with the response it handles, after the `Has` of the
message handler found the id. -/
inductive Op
  /-- The `Has` and the `Get` of `ProcessBlockHeader` or `ProcessBlockBody`. -/
  | has
  | get
  /-- The response is written to the entry. -/
  | write (entry : Ref)
  /-- The `Has` and the `Get` of `CheckBlockComplete`. -/
  | checkHas
  | checkGet
  | compare (entry : Ref)
  /-- The loop of `CheckBlockComplete`. -/
  | take (pairs : List (Header × BlockBody))
deriving DecidableEq

/-- `gotHeader` and `gotBody` say which of the two responses the loop has turned
to. A block in `delivered` stands with the id it was completed under. -/
structure State where
  heap : Ref → RecvBlockInfo
  next : Ref
  receiveBlocks : GoMap UInt64 Ref
  lastBlockNumber : UInt64
  totalRecvBlock : UInt64
  requester : Requester
  gotHeader : Bool
  gotBody : Bool
  loop : Option (Response × Op)
  delivered : List (UInt64 × Block)

/-- A step of the requester, or of the loop: `lookup` is the `Has` of the handler
of a message that has arrived, and `next` what comes after it. -/
inductive Action
  | sendHeader
  | sendBody
  | set
  | lookup (m : Response)
  | next (hasBlock : HasBlock)

section Step
variable (N : Node) (A : Ask)

/-- The response can be at hand: it belongs to another request, or the request
it answers was sent and it has not been handled yet. -/
def State.Arrived (s : State) (m : Response) : Prop :=
  m.id ≠ A.id ∨
    (m = A.headerResponse ∧ s.requester ≠ .start ∧ s.gotHeader = false) ∨
    (m = A.bodyResponse ∧ s.requester ≠ .start ∧ s.requester ≠ .headerSent ∧ s.gotBody = false)

instance (s : State) (m : Response) : Decidable (s.Arrived A m) := inferInstanceAs (Decidable (_ ∨ _ ∨ _))

/-- The loop goes on with the response at `op`, or is done with it. -/
def State.goto (s : State) (m : Response) (op : Option Op) : State := { s with loop := op.map (m, ·) }

/-- One turn of the loop of `CheckBlockComplete`. -/
def State.takeBlock (s : State) (hasBlock : HasBlock) (id : UInt64) (header : Header) (body : BlockBody) : State :=
  { s with
    receiveBlocks := s.receiveBlocks.erase id
    lastBlockNumber := header.num
    totalRecvBlock := s.totalRecvBlock + 1
    delivered := s.delivered ++
      if !hasBlock (header.hash N.crypto) header.num && N.trader then [(id, blockOf header body)] else [] }

def State.runOp (s : State) (hasBlock : HasBlock) (m : Response) : Op → State
  | .has => s.goto m (if m.id ∈ s.receiveBlocks then some .get else none)
  | .get => s.goto m ((s.receiveBlocks.lookup m.id).map .write)
  | .write r => { s with heap := Function.update s.heap r (m.part.write (s.heap r)) }.goto m (some .checkHas)
  | .checkHas => s.goto m (if m.id ∈ s.receiveBlocks then some .checkGet else none)
  | .checkGet => s.goto m ((s.receiveBlocks.lookup m.id).map .compare)
  | .compare r =>
    let info := s.heap r
    s.goto m (if info.blockBody.length = info.blockHeader.length then
      some (.take (info.blockHeader.zip info.blockBody)) else none)
  | .take [] => s.goto m none
  | .take ((header, body) :: rest) => (s.takeBlock N hasBlock m.id header body).goto m (some (.take rest))

def State.step (s : State) : Action → Option State
  | .sendHeader => if s.requester = .start then some { s with requester := .headerSent } else none
  | .sendBody => if s.requester = .headerSent then some { s with requester := .bodySent } else none
  | .set =>
    if s.requester = .bodySent then
      some { s with
        requester := .done
        heap := Function.update s.heap s.next ⟨[], []⟩
        next := s.next + 1
        receiveBlocks := s.receiveBlocks.insert A.id s.next }
    else none
  | .lookup m =>
    if s.loop = none ∧ s.Arrived A m then
      some ({ s with
        gotHeader := s.gotHeader || decide (m = A.headerResponse)
        gotBody := s.gotBody || decide (m = A.bodyResponse) }.goto m
          (if m.id ∈ s.receiveBlocks then some .has else none))
    else none
  | .next hasBlock => s.loop.map fun (m, op) => s.runOp N hasBlock m op

/-- One action, as a step of `Run`. -/
def State.Steps (s : State) (a : Action) (t : State) : Prop := s.step N A a = some t

end Step

/-- The moment `RequestBlocks` is called, with the loop between two messages. The
id may be in use. -/
structure Start (s : State) : Prop where
  requester : s.requester = .start
  gotHeader : s.gotHeader = false
  gotBody : s.gotBody = false
  loop : s.loop = none
  delivered : s.delivered = []
  refs : ∀ i r, s.receiveBlocks.lookup i = some r → r < s.next

/-- `RequestBlocks` has returned and the loop has handled both responses. -/
structure Complete (s : State) : Prop where
  requester : s.requester = .done
  gotHeader : s.gotHeader = true
  gotBody : s.gotBody = true
  loop : s.loop = none

/-- What was handed on under the id. -/
def State.deliveredFor (s : State) (id : UInt64) : List (UInt64 × Block) := s.delivered.filter fun d => d.1 = id

/-- The id is tracked before the loop looks up a response that carries it. -/
def TrackedFirst (A : Ask) (es : List Action) : Prop :=
  ∃ pre post, es = pre ++ .set :: post ∧ ∀ m : Response, m.id = A.id → .lookup m ∉ pre

/-! ## What a step of the loop leaves alone -/

/-- The entry the loop holds a pointer to. -/
def Op.ref : Op → Option Ref
  | .write r | .compare r => some r
  | .has | .get | .checkHas | .checkGet | .take _ => none

section Goto
variable (s : State) (m : Response) (op : Option Op)

@[simp] lemma goto_heap : (s.goto m op).heap = s.heap := rfl
@[simp] lemma goto_receiveBlocks : (s.goto m op).receiveBlocks = s.receiveBlocks := rfl
@[simp] lemma goto_gotHeader : (s.goto m op).gotHeader = s.gotHeader := rfl
@[simp] lemma goto_gotBody : (s.goto m op).gotBody = s.gotBody := rfl
@[simp] lemma goto_delivered : (s.goto m op).delivered = s.delivered := rfl
@[simp] lemma goto_loop : (s.goto m op).loop = op.map (m, ·) := rfl

end Goto

section RunOp
variable {N : Node} {s : State} {hasBlock : HasBlock} {m : Response} {op : Op}

lemma runOp_requester : (s.runOp N hasBlock m op).requester = s.requester := by
  rcases op with _ | _ | _ | _ | _ | _ | ⟨_ | _⟩ <;> rfl

lemma runOp_next : (s.runOp N hasBlock m op).next = s.next := by
  rcases op with _ | _ | _ | _ | _ | _ | ⟨_ | _⟩ <;> rfl

lemma runOp_got : (s.runOp N hasBlock m op).gotHeader = s.gotHeader ∧
    (s.runOp N hasBlock m op).gotBody = s.gotBody := by
  rcases op with _ | _ | _ | _ | _ | _ | ⟨_ | _⟩ <;> exact ⟨rfl, rfl⟩

/-- The map changes at most at the id of the response, where an entry can go. -/
lemma runOp_receiveBlocks : (s.runOp N hasBlock m op).receiveBlocks = s.receiveBlocks ∨
    (s.runOp N hasBlock m op).receiveBlocks = s.receiveBlocks.erase m.id := by
  rcases op with _ | _ | _ | _ | _ | _ | ⟨_ | _⟩
  case take.cons => exact .inr rfl
  all_goals exact .inl rfl

variable {i : UInt64}

lemma lookup_runOp_of_ne (hi : i ≠ m.id) :
    (s.runOp N hasBlock m op).receiveBlocks.lookup i = s.receiveBlocks.lookup i := by
  rcases runOp_receiveBlocks (N := N) (s := s) (m := m) with h | h
  · rw [h]
  · rw [h, lookup_erase_ne hi]

variable {r : Ref}

lemma of_lookup_runOp (h : (s.runOp N hasBlock m op).receiveBlocks.lookup i = some r) :
    s.receiveBlocks.lookup i = some r := by
  rcases runOp_receiveBlocks (N := N) (s := s) (m := m) with he | he
  · exact he ▸ h
  · exact (lookup_erase_iff.1 (he ▸ h)).2

lemma heap_runOp_of_ne (h : op.ref ≠ some r) : (s.runOp N hasBlock m op).heap r = s.heap r := by
  rcases op with _ | _ | w | _ | _ | _ | ⟨_ | _⟩
  case write => exact Function.update_of_ne (fun e => h (by rw [e]; rfl)) ..
  all_goals rfl

/-- The loop stays with its response, and takes pointers from the map only. -/
lemma of_loop_runOp {m' : Response} {op' : Op} (h : (s.runOp N hasBlock m op).loop = some (m', op')) :
    m' = m ∧ ∀ r, op'.ref = some r → s.receiveBlocks.lookup m.id = some r := by
  rcases op with _ | _ | w | _ | _ | c | ⟨_ | _⟩ <;> simp only [State.runOp, goto_loop] at h
  case has | checkHas | compare =>
    split at h
    · cases h
      exact ⟨rfl, fun r hr => nomatch hr⟩
    · cases h
  case get | checkGet =>
    cases hl : s.receiveBlocks.lookup m.id with
    | none => rw [hl] at h; cases h
    | some r' =>
      rw [hl] at h
      cases h
      exact ⟨rfl, fun r hr => hr⟩
  case take.nil => cases h
  all_goals
    cases h
    exact ⟨rfl, fun r hr => nomatch hr⟩

lemma deliveredFor_runOp_of_ne (hi : m.id ≠ i) : (s.runOp N hasBlock m op).deliveredFor i = s.deliveredFor i := by
  rcases op with _ | _ | _ | _ | _ | _ | ⟨_ | ⟨⟨header, body⟩, rest⟩⟩
  case take.cons =>
    simp only [State.deliveredFor, State.runOp, goto_delivered, State.takeBlock, filter_append]
    split <;> simp [hi]
  all_goals rfl

end RunOp

/-! ## What an action does -/

section Step
variable {N : Node} {A : Ask} {s t : State}

lemma step_sendHeader_iff :
    s.step N A .sendHeader = some t ↔ s.requester = .start ∧ t = { s with requester := .headerSent } := by
  simp [State.step, eq_comm]

lemma step_sendBody_iff :
    s.step N A .sendBody = some t ↔ s.requester = .headerSent ∧ t = { s with requester := .bodySent } := by
  simp [State.step, eq_comm]

lemma step_set_iff :
    s.step N A .set = some t ↔ s.requester = .bodySent ∧
      t = { s with
        requester := .done
        heap := Function.update s.heap s.next ⟨[], []⟩
        next := s.next + 1
        receiveBlocks := s.receiveBlocks.insert A.id s.next } := by
  simp [State.step, eq_comm]

variable {m : Response}

lemma step_lookup_iff :
    s.step N A (.lookup m) = some t ↔ (s.loop = none ∧ s.Arrived A m) ∧
      t = { s with
        gotHeader := s.gotHeader || decide (m = A.headerResponse)
        gotBody := s.gotBody || decide (m = A.bodyResponse) }.goto m
          (if m.id ∈ s.receiveBlocks then some .has else none) := by
  simp [State.step, eq_comm]

lemma step_next_iff {hasBlock : HasBlock} :
    s.step N A (.next hasBlock) = some t ↔ ∃ m op, s.loop = some (m, op) ∧ t = s.runOp N hasBlock m op := by
  simp [State.step, eq_comm]

lemma got_of_ne (hm : m.id ≠ A.id) : (s.gotHeader || decide (m = A.headerResponse)) = s.gotHeader ∧
      (s.gotBody || decide (m = A.bodyResponse)) = s.gotBody := by
  have h1 : m ≠ A.headerResponse := fun e => hm (by rw [e]; rfl)
  have h2 : m ≠ A.bodyResponse := fun e => hm (by rw [e]; rfl)
  simp [h1, h2]

lemma done_iff_of_step {a : Action} (hs : s.step N A a = some t) (ha : a ≠ .set) : t.requester = .done ↔ s.requester = .done := by
  cases a with
  | sendHeader => rw [(step_sendHeader_iff.1 hs).2, (step_sendHeader_iff.1 hs).1]; simp
  | sendBody => rw [(step_sendBody_iff.1 hs).2, (step_sendBody_iff.1 hs).1]; simp
  | set => exact absurd rfl ha
  | lookup m => rw [(step_lookup_iff.1 hs).2]; exact .rfl
  | next hasBlock =>
    obtain ⟨m, op, -, rfl⟩ := step_next_iff.1 hs
    rw [runOp_requester]

lemma done_stays {a : Action} (hs : s.step N A a = some t) (h : s.requester = .done) : t.requester = .done := by
  by_cases ha : a = .set
  · subst ha
    rw [(step_set_iff.1 hs).2]
  · exact (done_iff_of_step hs ha).2 h

end Step

/-! ## Before the id is tracked -/

/-- The loop is with other requests, and nothing was handed on under the id. -/
structure Before (A : Ask) (s : State) : Prop where
  refs : ∀ i r, s.receiveBlocks.lookup i = some r → r < s.next
  held : ∀ m op r, s.loop = some (m, op) → op.ref = some r → r < s.next
  quiet : ∀ m op, s.loop = some (m, op) → m.id ≠ A.id
  own : s.deliveredFor A.id = []

section Before
variable {N : Node} {A : Ask} {s t : State} {a : Action}

lemma Start.before (h : Start s) : Before A s where
  refs := h.refs
  held := by simp [h.loop]
  quiet := by simp [h.loop]
  own := by simp [State.deliveredFor, h.delivered]

/-- A response that is looked up while its id is not in the map is dropped at
once, so the loop turns to the id in no case. -/
lemma Before.step (h : Before A s) (hs : s.step N A a = some t) (hset : a ≠ .set)
    (hmiss : s.receiveBlocks.lookup A.id = none ∨ ∀ m : Response, m.id = A.id → a ≠ .lookup m) :
    Before A t ∧ (s.receiveBlocks.lookup A.id = none → t.receiveBlocks.lookup A.id = none) := by
  cases a with
  | sendHeader =>
    obtain ⟨-, rfl⟩ := step_sendHeader_iff.1 hs
    exact ⟨{ h with }, id⟩
  | sendBody =>
    obtain ⟨-, rfl⟩ := step_sendBody_iff.1 hs
    exact ⟨{ h with }, id⟩
  | set => exact absurd rfl hset
  | lookup m =>
    obtain ⟨-, rfl⟩ := step_lookup_iff.1 hs
    refine ⟨⟨h.refs, fun m' op r hl hr => ?_, fun m' op hl => ?_, h.own⟩, id⟩
    · rw [goto_loop] at hl
      split at hl
      · cases hl
        cases hr
      · cases hl
    · rw [goto_loop] at hl
      split at hl
      · rename_i hm
        cases hl
        rcases hmiss with hmiss | hmiss
        · exact fun hid => absurd hm (lookup_eq_none.1 (hid ▸ hmiss))
        · exact fun hid => hmiss m hid rfl
      · cases hl
  | next hasBlock =>
    obtain ⟨m, op, hl, rfl⟩ := step_next_iff.1 hs
    have hm := h.quiet m op hl
    refine ⟨⟨fun i r hi => ?_, fun m' op' r hl' hr => ?_, fun m' op' hl' => ?_, ?_⟩, fun hn => ?_⟩
    · rw [runOp_next]
      exact h.refs i r (of_lookup_runOp hi)
    · rw [runOp_next]
      exact h.refs m.id r ((of_loop_runOp hl').2 r hr)
    · rw [(of_loop_runOp hl').1]
      exact hm
    · rw [deliveredFor_runOp_of_ne hm]
      exact h.own
    · rw [lookup_runOp_of_ne hm.symm]
      exact hn

lemma got_of_step (hs : s.step N A a = some t) (ha : ∀ m : Response, m.id = A.id → a ≠ .lookup m) :
    t.gotHeader = s.gotHeader ∧ t.gotBody = s.gotBody := by
  cases a with
  | sendHeader => rw [(step_sendHeader_iff.1 hs).2]; exact ⟨rfl, rfl⟩
  | sendBody => rw [(step_sendBody_iff.1 hs).2]; exact ⟨rfl, rfl⟩
  | set => rw [(step_set_iff.1 hs).2]; exact ⟨rfl, rfl⟩
  | lookup m =>
    rw [(step_lookup_iff.1 hs).2]
    exact got_of_ne fun hm => ha m hm rfl
  | next hasBlock =>
    obtain ⟨m, op, -, rfl⟩ := step_next_iff.1 hs
    exact runOp_got

lemma got_mono (hs : s.step N A a = some t) :
    (s.gotHeader = true → t.gotHeader = true) ∧ (s.gotBody = true → t.gotBody = true) := by
  by_cases ha : ∃ m : Response, a = .lookup m
  · obtain ⟨m, rfl⟩ := ha
    rw [(step_lookup_iff.1 hs).2]
    exact ⟨fun h => by simp [h], fun h => by simp [h]⟩
  · obtain ⟨h1, h2⟩ := got_of_step hs fun m _ e => ha ⟨m, e⟩
    rw [h1, h2]
    exact ⟨id, id⟩

/-- Looking up a response with the id marks one of the two. -/
lemma got_of_lookup (hs : s.step N A (.lookup m) = some t) (hm : m.id = A.id) :
    t.gotHeader = true ∨ t.gotBody = true := by
  obtain ⟨⟨-, harr⟩, rfl⟩ := step_lookup_iff.1 hs
  rcases harr with h | ⟨rfl, -⟩ | ⟨rfl, -⟩
  · exact absurd hm h
  · exact .inl (by simp)
  · exact .inr (by simp)

end Before

/-! ## After the id is tracked -/

/-- The entry with the responses that were written to it. -/
def Ask.info (A : Ask) (hasHeader hasBody : Bool) : RecvBlockInfo :=
  ⟨if hasHeader then [A.header] else [], if hasBody then [A.body] else []⟩

/-- The entry is tracked and nothing was handed on. -/
def Waiting (A : Ask) (r : Ref) (s : State) : Prop :=
  s.receiveBlocks.lookup A.id = some r ∧ s.deliveredFor A.id = []

/-- The block was handed on, and its entry is gone. -/
def Handed (A : Ask) (s : State) : Prop :=
  s.receiveBlocks.lookup A.id = none ∧ s.deliveredFor A.id = [(A.id, A.block)]

/-- The loop is not with the id: the block was handed on if both responses were
written, and is waited for if not. -/
def Settled (A : Ask) (hasHeader hasBody : Bool) (r : Ref) (s : State) : Prop :=
  if hasHeader && hasBody then Handed A s else Waiting A r s ∧ s.heap r = A.info hasHeader hasBody

/-- The loop is at `op` with a response of the id, which is written or will be. -/
def Busy (A : Ask) (hasHeader hasBody : Bool) (r : Ref) (s : State) (m : Response) : Op → Prop
  | .has | .get => Waiting A r s ∧ m.part.write (s.heap r) = A.info hasHeader hasBody
  | .write w => w = r ∧ Waiting A r s ∧ m.part.write (s.heap r) = A.info hasHeader hasBody
  | .checkHas | .checkGet => Waiting A r s ∧ s.heap r = A.info hasHeader hasBody
  | .compare w => w = r ∧ Waiting A r s ∧ s.heap r = A.info hasHeader hasBody
  | .take pairs => hasHeader = true ∧ hasBody = true ∧
      ((pairs = [(A.header, A.body)] ∧ Waiting A r s) ∨ (pairs = [] ∧ Handed A s))

/-- Where the step of the loop leads with the id. -/
def After (A : Ask) (hasHeader hasBody : Bool) (r : Ref) (s : State) (m : Response) : Prop :=
  match s.loop with
  | none => Settled A hasHeader hasBody r s
  | some (_, op) => Busy A hasHeader hasBody r s m op

section Busy
variable {N : Node} {A : Ask} {s : State} {hasBlock : HasBlock} {m : Response} {r : Ref} {hasHeader hasBody : Bool}

lemma Waiting.lookup (h : Waiting A r s) (hm : m.id = A.id) : s.receiveBlocks.lookup m.id = some r := hm ▸ h.1

lemma Waiting.mem (h : Waiting A r s) (hm : m.id = A.id) : m.id ∈ s.receiveBlocks :=
  mem_iff.2 ⟨r, h.lookup hm⟩

/-- With one response the lists differ in length, and with both they are one pair. -/
lemma busy_compare (hsome : hasHeader = true ∨ hasBody = true) (h : Busy A hasHeader hasBody r s m (.compare r)) :
    After A hasHeader hasBody r (s.runOp N hasBlock m (.compare r)) m := by
  obtain ⟨-, hw, hi⟩ := h
  simp only [State.runOp, hi]
  cases hasHeader <;> cases hasBody
  case false.false => simp at hsome
  case true.true => exact ⟨rfl, rfl, .inl ⟨rfl, hw⟩⟩
  all_goals exact ⟨hw, hi⟩

/-- The one turn of the loop that hands the block on. -/
lemma handed_takeBlock (hm : m.id = A.id) (ht : N.trader = true)
    (hnew : hasBlock (A.header.hash N.crypto) A.header.num = false) (h : Waiting A r s) (op : Option Op) :
    Handed A ((s.takeBlock N hasBlock m.id A.header A.body).goto m op) := by
  constructor
  · simp [State.takeBlock, hm, lookup_erase]
  · have hown := h.2
    simp only [State.deliveredFor, goto_delivered, State.takeBlock, filter_append] at hown ⊢
    simp [hown, hnew, ht, hm, Ask.block]

lemma busy_runOp (hm : m.id = A.id) (ht : N.trader = true)
    (hnew : hasBlock (A.header.hash N.crypto) A.header.num = false) (hsome : hasHeader = true ∨ hasBody = true)
    {op : Op} (h : Busy A hasHeader hasBody r s m op) : After A hasHeader hasBody r (s.runOp N hasBlock m op) m := by
  cases op with
  | has =>
    simp only [State.runOp, if_pos (h.1.mem hm)]
    exact h
  | get =>
    simp only [State.runOp, h.1.lookup hm]
    exact ⟨rfl, h⟩
  | write w =>
    obtain ⟨rfl, hw, hi⟩ := h
    exact ⟨hw, by simp [State.runOp, hi]⟩
  | checkHas =>
    simp only [State.runOp, if_pos (h.1.mem hm)]
    exact h
  | checkGet =>
    simp only [State.runOp, h.1.lookup hm]
    exact ⟨rfl, h⟩
  | compare w =>
    obtain rfl := h.1
    exact busy_compare hsome h
  | take pairs =>
    obtain ⟨rfl, rfl, ⟨rfl, hw⟩ | ⟨rfl, hd⟩⟩ := h
    · exact ⟨rfl, rfl, .inr ⟨rfl, handed_takeBlock hm ht hnew hw _⟩⟩
    · exact hd

end Busy

/-- Kept from `set` on. The two marks say which responses were looked up before
it, and so missed; the others are written to the entry at `r`, which nothing else
points to. -/
structure Tracked (A : Ask) (missedHeader missedBody : Bool) (r : Ref) (s : State) : Prop where
  requester : s.requester = .done
  header : missedHeader = true → s.gotHeader = true
  body : missedBody = true → s.gotBody = true
  only : ∀ i, s.receiveBlocks.lookup i = some r → i = A.id
  held : ∀ m op, s.loop = some (m, op) → m.id ≠ A.id → op.ref ≠ some r
  quiet : (∀ m op, s.loop = some (m, op) → m.id ≠ A.id) →
    Settled A (s.gotHeader && !missedHeader) (s.gotBody && !missedBody) r s
  busy : ∀ m op, s.loop = some (m, op) → m.id = A.id →
    ((s.gotHeader && !missedHeader) = true ∨ (s.gotBody && !missedBody) = true) ∧
      Busy A (s.gotHeader && !missedHeader) (s.gotBody && !missedBody) r s m op

section Tracked
variable {N : Node} {A : Ask} {s t : State} {a : Action} {r : Ref} {missedHeader missedBody : Bool}

lemma Settled.congr {hasHeader hasBody : Bool} (h : Settled A hasHeader hasBody r s)
    (hl : t.receiveBlocks.lookup A.id = s.receiveBlocks.lookup A.id)
    (hd : t.deliveredFor A.id = s.deliveredFor A.id) (hh : t.heap r = s.heap r) : Settled A hasHeader hasBody r t := by
  unfold Settled Handed Waiting at h ⊢
  rw [hl, hd, hh]
  exact h

/-- `set` starts the entry under a pointer that nobody has. -/
lemma Before.set (h : Before A s) (hs : s.step N A .set = some t) : Tracked A s.gotHeader s.gotBody s.next t := by
  obtain ⟨-, rfl⟩ := step_set_iff.1 hs
  refine ⟨rfl, id, id, fun i hi => ?_, fun m op hl _ hr => ?_, fun _ => ?_, fun m op hl hm => ?_⟩
  · rcases lookup_insert_iff.1 hi with ⟨rfl, -⟩ | ⟨-, hi⟩
    · rfl
    · exact absurd (h.refs i _ hi) (lt_irrefl _)
  · exact absurd (h.held m op _ hl hr) (lt_irrefl _)
  · have hown := h.own
    simp [Settled, Waiting, Ask.info, lookup_insert, State.deliveredFor] at hown ⊢
    exact hown
  · exact absurd hm (h.quiet m op hl)

section
variable (h : Tracked A missedHeader missedBody r s)
include h

/-- The loop turns to a response. One of the two finds the entry without it. -/
lemma Tracked.lookup
    (hs : s.step N A (.lookup m) = some t) : Tracked A missedHeader missedBody r t := by
  have hmono := got_mono hs
  obtain ⟨⟨hloop, harr⟩, rfl⟩ := step_lookup_iff.1 hs
  have hset := h.quiet (by simp [hloop])
  by_cases hm : m.id = A.id
  · -- The response was not looked up before, so the entry waits for it.
    have hwait : Waiting A r s ∧ m.part.write (s.heap r) =
          A.info ((s.gotHeader || decide (m = A.headerResponse)) && !missedHeader)
            ((s.gotBody || decide (m = A.bodyResponse)) && !missedBody) ∧
        (((s.gotHeader || decide (m = A.headerResponse)) && !missedHeader) = true ∨
          ((s.gotBody || decide (m = A.bodyResponse)) && !missedBody) = true) := by
      rcases harr with hne | ⟨rfl, -, hg⟩ | ⟨rfl, -, -, hg⟩
      · exact absurd hm hne
      · have hmiss : missedHeader = false := by
          cases hmh : missedHeader with
          | false => rfl
          | true => rw [h.header hmh] at hg; cases hg
        simp only [hg, hmiss, Bool.not_false, Bool.and_true, Settled, Bool.false_and, Bool.false_eq_true,
          if_false] at hset
        refine ⟨hset.1, ?_, ?_⟩
        · simp [hset.2, hmiss, Ask.headerResponse, Ask.bodyResponse, Part.write, Ask.info]
        · simp [hmiss]
      · have hmiss : missedBody = false := by
          cases hmb : missedBody with
          | false => rfl
          | true => rw [h.body hmb] at hg; cases hg
        simp only [hg, hmiss, Bool.not_false, Bool.and_true, Settled, Bool.and_false, Bool.false_eq_true,
          if_false] at hset
        refine ⟨hset.1, ?_, ?_⟩
        · simp [hset.2, hmiss, Ask.headerResponse, Ask.bodyResponse, Part.write, Ask.info]
        · simp [hmiss]
    obtain ⟨hw, hwrite, hsome⟩ := hwait
    rw [if_pos (hw.mem hm)]
    refine ⟨h.requester, fun e => hmono.1 (h.header e), fun e => hmono.2 (h.body e), h.only, ?_, ?_, ?_⟩
    · intro m' op hl hne
      cases hl
      exact absurd hm hne
    · intro hq
      exact absurd hm (hq m .has rfl)
    · intro m' op hl _
      cases hl
      exact ⟨hsome, hw, hwrite⟩
  · have hloop' : ∀ m' op, (s.goto m (if m.id ∈ s.receiveBlocks then some .has else none)).loop = some (m', op) →
        m' = m ∧ op.ref = none := by
      intro m' op hl
      rw [goto_loop] at hl
      split at hl
      · cases hl
        exact ⟨rfl, rfl⟩
      · cases hl
    simp only [(got_of_ne hm).1, (got_of_ne hm).2]
    refine ⟨h.requester, h.header, h.body, h.only, fun m' op hl _ => ?_, fun _ => hset.congr rfl rfl rfl,
      fun m' op hl hid => ?_⟩
    · rw [(hloop' m' op hl).2]
      simp
    · rw [(hloop' m' op hl).1] at hid
      exact absurd hid hm

/-- The loop goes on, with another id or with this one. -/
lemma Tracked.next {hasBlock : HasBlock} (ht : N.trader = true)
    (hnew : hasBlock (A.header.hash N.crypto) A.header.num = false)
    (hs : s.step N A (.next hasBlock) = some t) : Tracked A missedHeader missedBody r t := by
  obtain ⟨m, op, hl, rfl⟩ := step_next_iff.1 hs
  have hsame : ∀ m' op', (s.runOp N hasBlock m op).loop = some (m', op') → m' = m := fun m' op' hl' =>
    (of_loop_runOp hl').1
  refine ⟨runOp_requester.trans h.requester, by rw [runOp_got.1]; exact h.header, by rw [runOp_got.2]; exact h.body,
    fun i hi => h.only i (of_lookup_runOp hi), fun m' op' hl' hne hr => ?_, fun hq => ?_, fun m' op' hl' hm' => ?_⟩
  · rw [hsame m' op' hl'] at hne
    exact hne (h.only _ ((of_loop_runOp hl').2 r hr))
  · rw [runOp_got.1, runOp_got.2]
    by_cases hm : m.id = A.id
    · obtain ⟨hsome, hb⟩ := h.busy m op hl hm
      have hafter := busy_runOp hm ht hnew hsome hb
      unfold After at hafter
      split at hafter
      · exact hafter
      · rename_i m' op' hl'
        exact absurd (hsame _ _ hl' ▸ hm) (hq _ _ hl')
    · refine (h.quiet fun m' op' e => ?_).congr (lookup_runOp_of_ne (Ne.symm hm)) (deliveredFor_runOp_of_ne hm)
        (heap_runOp_of_ne (h.held m op hl hm))
      rw [hl] at e
      cases e
      exact hm
  · obtain rfl := hsame m' op' hl'
    obtain ⟨hsome, hb⟩ := h.busy m' op hl hm'
    have hafter := busy_runOp hm' ht hnew hsome hb
    unfold After at hafter
    rw [hl'] at hafter
    rw [runOp_got.1, runOp_got.2]
    exact ⟨hsome, hafter⟩

lemma Tracked.step (ht : N.trader = true)
    (hnew : ∀ hasBlock, a = .next hasBlock → hasBlock (A.header.hash N.crypto) A.header.num = false)
    (hs : s.step N A a = some t) : Tracked A missedHeader missedBody r t := by
  have hdone := h.requester
  cases a with
  | sendHeader => rw [(step_sendHeader_iff.1 hs).1] at hdone; cases hdone
  | sendBody => rw [(step_sendBody_iff.1 hs).1] at hdone; cases hdone
  | set => rw [(step_set_iff.1 hs).1] at hdone; cases hdone
  | lookup m => exact h.lookup hs
  | next hasBlock => exact h.next ht (hnew hasBlock rfl) hs

end

end Tracked

/-! ## Over whole runs -/

section Runs
variable {N : Node} {A : Ask} {s t : State} {es : List Action}

/-- The id was free, and the loop has found it so. -/
lemma Before.run_free (h : Before A s) (hfree : s.receiveBlocks.lookup A.id = none)
    (hrun : Run (State.Steps N A) s es t) (hset : .set ∉ es) : Before A t ∧ t.receiveBlocks.lookup A.id = none := by
  induction hrun with
  | nil s => exact ⟨h, hfree⟩
  | cons hs _ ih =>
    rw [mem_cons, not_or] at hset
    obtain ⟨h', hfree'⟩ := h.step hs (Ne.symm hset.1) (.inl hfree)
    exact ih h' (hfree' hfree) hset.2

/-- The loop has looked up neither response. -/
lemma Before.run_early (h : Before A s) (hrun : Run (State.Steps N A) s es t) (hset : .set ∉ es)
    (hes : ∀ m : Response, m.id = A.id → .lookup m ∉ es) :
    Before A t ∧ t.gotHeader = s.gotHeader ∧ t.gotBody = s.gotBody := by
  induction hrun with
  | nil s => exact ⟨h, rfl, rfl⟩
  | cons hs _ ih =>
    rw [mem_cons, not_or] at hset
    have ha := fun m hm => (not_or.1 (fun e => hes m hm (mem_cons.2 e))).1
    obtain ⟨g1, g2⟩ := got_of_step hs fun m hm e => ha m hm e.symm
    obtain ⟨h', -⟩ := h.step hs (Ne.symm hset.1) (.inr fun m hm e => ha m hm e.symm)
    obtain ⟨hb, g3, g4⟩ := ih h' hset.2 fun m hm e => hes m hm (mem_cons_of_mem _ e)
    exact ⟨hb, g3.trans g1, g4.trans g2⟩

lemma Tracked.run {missedHeader missedBody : Bool} (h : Tracked A missedHeader missedBody r s) (ht : N.trader = true)
    (hnew : ∀ hasBlock, .next hasBlock ∈ es → hasBlock (A.header.hash N.crypto) A.header.num = false)
    (hrun : Run (State.Steps N A) s es t) : Tracked A missedHeader missedBody r t := by
  induction hrun with
  | nil s => exact h
  | cons hs _ ih =>
    exact ih (h.step ht (fun hb e => hnew hb (e ▸ mem_cons_self ..)) hs)
      fun hb e => hnew hb (mem_cons_of_mem _ e)

section
variable (hrun : Run (State.Steps N A) s es t)
include hrun

lemma done_of_run (h : s.requester = .done) : t.requester = .done :=
  hrun.inv (fun s => s.requester = .done) h fun _ _ _ h hs => done_stays hs h

/-- `RequestBlocks` tracks the id when it returns, and not before. -/
lemma set_not_mem (h : t.requester ≠ .done) : .set ∉ es := by
  intro hmem
  obtain ⟨pre, post, rfl⟩ := append_of_mem hmem
  obtain ⟨u, -, hrest⟩ := Run.append_iff.1 hrun
  obtain ⟨v, hs, hpost⟩ := Run.cons_iff.1 hrest
  exact h (done_of_run hpost (by rw [(step_set_iff.1 hs).2]))

lemma exists_set (h : s.requester ≠ .done) (h' : t.requester = .done) :
    ∃ pre post, es = pre ++ .set :: post := by
  by_contra hno
  have hset : .set ∉ es := fun hmem => hno (append_of_mem hmem)
  have hkeep : ∀ {u v : State} {l}, Run (State.Steps N A) u l v → .set ∉ l → u.requester ≠ .done →
      v.requester ≠ .done := by
    intro u v l hr
    induction hr with
    | nil u => exact fun _ h => h
    | cons hs _ ih =>
      intro hl hu
      rw [mem_cons, not_or] at hl
      exact ih hl.2 (mt (done_iff_of_step hs (Ne.symm hl.1)).1 hu)
  exact hkeep hrun hset h h'

lemma got_of_run (h : s.gotHeader = true ∨ s.gotBody = true) :
    t.gotHeader = true ∨ t.gotBody = true :=
  hrun.inv (fun s => s.gotHeader = true ∨ s.gotBody = true) h fun _ _ _ h hs =>
    h.imp (got_mono hs).1 (got_mono hs).2

lemma lookup_not_mem (h1 : t.gotHeader = false) (h2 : t.gotBody = false)
    (m : Response) (hm : m.id = A.id) : .lookup m ∉ es := by
  intro hmem
  obtain ⟨pre, post, rfl⟩ := append_of_mem hmem
  obtain ⟨u, -, hrest⟩ := Run.append_iff.1 hrun
  obtain ⟨v, hs, hpost⟩ := Run.cons_iff.1 hrest
  rcases got_of_run hpost (got_of_lookup hs hm) with h | h
  · rw [h1] at h; cases h
  · rw [h2] at h; cases h

/-- While nothing was sent, nothing that answers it is looked up. -/
lemma lookup_not_mem_of_start (ht : t.requester = .start) :
    s.requester = .start ∧ ∀ m : Response, m.id = A.id → .lookup m ∉ es := by
  induction hrun with
  | nil s => exact ⟨ht, fun _ _ => not_mem_nil⟩
  | @cons s u t a es hs _ ih =>
    obtain ⟨hu, hes⟩ := ih ht
    have hfirst : s.requester = .start ∧ ∀ m : Response, m.id = A.id → a ≠ .lookup m := by
      cases a with
      | sendHeader => rw [(step_sendHeader_iff.1 hs).2] at hu; cases hu
      | sendBody => rw [(step_sendBody_iff.1 hs).2] at hu; cases hu
      | set => rw [(step_set_iff.1 hs).2] at hu; cases hu
      | lookup m =>
        obtain ⟨⟨-, harr⟩, rfl⟩ := step_lookup_iff.1 hs
        refine ⟨hu, fun m' hm e => ?_⟩
        cases e
        rcases harr with h | ⟨-, h, -⟩ | ⟨-, h, -⟩
        · exact h hm
        · exact h hu
        · exact h hu
      | next hasBlock =>
        obtain ⟨m, op, -, rfl⟩ := step_next_iff.1 hs
        exact ⟨runOp_requester.symm.trans hu, fun _ _ => Action.noConfusion⟩
    refine ⟨hfirst.1, fun m hm hmem => ?_⟩
    rcases mem_cons.1 hmem with e | e
    · exact hfirst.2 m hm e.symm
    · exact hes m hm e

/-- `RequestBlocks` in one go, with no step of the loop in between. -/
lemma trackedFirst_of_in_one_go {pre post : List Action}
    (hes : es = pre ++ .sendHeader :: .sendBody :: .set :: post) : TrackedFirst A es := by
  subst hes
  obtain ⟨u, hpre, hrest⟩ := Run.append_iff.1 hrun
  obtain ⟨v, hs, -⟩ := Run.cons_iff.1 hrest
  have hstart := lookup_not_mem_of_start hpre (step_sendHeader_iff.1 hs).1
  refine ⟨pre ++ [.sendHeader, .sendBody], post, by simp, fun m hm hmem => ?_⟩
  rcases mem_append.1 hmem with h | h
  · exact hstart.2 m hm h
  · simp at h

end

/-- Both responses were handled after `set`, or missed before it. -/
lemma Tracked.complete {missedHeader missedBody : Bool} (h : Tracked A missedHeader missedBody r s)
    (hdone : Complete s) : Settled A (!missedHeader) (!missedBody) r s := by
  have hq := h.quiet (by simp [hdone.loop])
  rwa [hdone.gotHeader, hdone.gotBody, Bool.true_and, Bool.true_and] at hq

end Runs

/-- The loop handles the two responses to a request, one of each kind, in any
order and any time after their requests were sent, and any responses with other
ids. If the id is tracked first, the block is handed on once and the entry is
removed. If not, and the id was free, the block is not handed on and the entry
stays. It is tracked first whenever `RequestBlocks` runs with no step of the loop
in between. -/
theorem delivered_once_iff_tracked_first (N : Node) (A : Ask) (s₀ s : State) (es : List Action) (hstart : Start s₀)
    (hrun : Run (State.Steps N A) s₀ es s) (hdone : Complete s) (ht : N.trader = true)
    (hnew : ∀ hasBlock, .next hasBlock ∈ es → hasBlock (A.header.hash N.crypto) A.header.num = false) :
    (TrackedFirst A es → s.deliveredFor A.id = [(A.id, A.block)] ∧ s.receiveBlocks.lookup A.id = none) ∧
      (s₀.receiveBlocks.lookup A.id = none → ¬ TrackedFirst A es → s.deliveredFor A.id = [] ∧ A.id ∈ s.receiveBlocks) ∧
      ∀ pre post, es = pre ++ .sendHeader :: .sendBody :: .set :: post → TrackedFirst A es := by
  have hafter : ∀ {pre post : List Action} {u v : State}, es = pre ++ .set :: post → Before A u →
      u.step N A .set = some v → Run (State.Steps N A) v post s →
        Settled A (!u.gotHeader) (!u.gotBody) u.next s := by
    intro pre post u v hes hu hs hpost
    have hnew' : ∀ hasBlock, .next hasBlock ∈ post → hasBlock (A.header.hash N.crypto) A.header.num = false :=
      fun hasBlock hmem => hnew hasBlock (by rw [hes]; simp [hmem])
    exact ((hu.set hs).run ht hnew' hpost).complete hdone
  refine ⟨fun ⟨pre, post, hes, hpre⟩ => ?_, fun hfree hlate => ?_, fun pre post hes => trackedFirst_of_in_one_go hrun hes⟩
  · obtain ⟨u, hrun1, hrest⟩ := Run.append_iff.1 (hes ▸ hrun)
    obtain ⟨v, hs, hpost⟩ := Run.cons_iff.1 hrest
    have hset : .set ∉ pre := set_not_mem hrun1 (by rw [(step_set_iff.1 hs).1]; simp)
    obtain ⟨hu, g1, g2⟩ := hstart.before.run_early hrun1 hset hpre
    have hsettled := hafter hes hu hs hpost
    rw [g1, g2, hstart.gotHeader, hstart.gotBody] at hsettled
    exact ⟨hsettled.2, hsettled.1⟩
  · obtain ⟨pre, post, hes⟩ := exists_set hrun (by rw [hstart.requester]; simp) hdone.requester
    obtain ⟨u, hrun1, hrest⟩ := Run.append_iff.1 (hes ▸ hrun)
    obtain ⟨v, hs, hpost⟩ := Run.cons_iff.1 hrest
    have hset : .set ∉ pre := set_not_mem hrun1 (by rw [(step_set_iff.1 hs).1]; simp)
    obtain ⟨hu, -⟩ := hstart.before.run_free hfree hrun1 hset
    have hsettled := hafter hes hu hs hpost
    have hmissed : (!u.gotHeader && !u.gotBody) = false := by
      by_contra hne
      simp only [Bool.not_eq_false, Bool.and_eq_true, Bool.not_eq_true'] at hne
      exact hlate ⟨pre, post, hes, lookup_not_mem hrun1 hne.1 hne.2⟩
    rw [Settled, hmissed, if_neg (by simp)] at hsettled
    exact ⟨hsettled.1.2, mem_iff.2 ⟨_, hsettled.1.1⟩⟩

/-- A chain without the block. -/
def noBlocks : HasBlock := fun _ _ => false

def smallAsk : Ask := ⟨7, Parlia.smallHeader 0 1 1 [] Parlia.few_none, ⟨[], []⟩⟩

def idleState : State := ⟨fun _ => ⟨[], []⟩, 0, ∅, 0, 0, .start, false, false, none, []⟩

lemma idleState_start : Start idleState := ⟨rfl, rfl, rfl, rfl, rfl, by simp [idleState]⟩

/-- The steps after the lookup of a response that waits, and of one that completes the block. -/
def waits : List Action := List.replicate 6 (.next noBlocks)
def completes : List Action := List.replicate 8 (.next noBlocks)

def State.isComplete (s : State) : Bool :=
  decide (s.requester = .done) && s.gotHeader && s.gotBody && s.loop.isNone

lemma complete_of_isComplete {s : State} (h : s.isComplete = true) : Complete s := by
  simp only [State.isComplete, Bool.and_eq_true, decide_eq_true_eq, Option.isNone_iff_eq_none] at h
  exact ⟨h.1.1.1, h.1.1.2, h.1.2, h.2⟩

/-- The id is tracked, and then the body comes before the header. -/
def bodyFirst : List Action :=
  [] ++ .sendHeader :: .sendBody :: .set :: .lookup smallAsk.bodyResponse :: waits ++
    .lookup smallAsk.headerResponse :: completes

theorem body_then_header_delivered : ∃ s, Run (State.Steps smallNode smallAsk) idleState bodyFirst s ∧ Complete s ∧
    s.deliveredFor smallAsk.id = [(smallAsk.id, smallAsk.block)] ∧ s.receiveBlocks.lookup smallAsk.id = none := by
  have hends : ((bodyFirst.foldlM (State.step smallNode smallAsk) idleState).any State.isComplete) = true := by
    decide +kernel
  obtain ⟨s, hrun, hdone⟩ := Run.of_foldlM hends
  have hcomplete := complete_of_isComplete hdone
  obtain ⟨hfirst, -, hone⟩ := delivered_once_iff_tracked_first smallNode smallAsk idleState s bodyFirst idleState_start
    hrun hcomplete rfl (by simp [bodyFirst, waits, completes, noBlocks])
  exact ⟨s, hrun, hcomplete, hfirst (hone [] _ rfl)⟩

/-- The header is looked up before the id is tracked. -/
def headerTooEarly : List Action :=
  .sendHeader :: .lookup smallAsk.headerResponse :: .sendBody :: .set :: .lookup smallAsk.bodyResponse :: waits

/-- Both responses are handled, the chain has no block, and none is handed on. -/
theorem early_header_loses_block : ∃ s, Start idleState ∧ Run (State.Steps smallNode smallAsk) idleState headerTooEarly s ∧
    Complete s ∧ s.deliveredFor smallAsk.id = [] ∧ smallAsk.id ∈ s.receiveBlocks := by
  have hends : ((headerTooEarly.foldlM (State.step smallNode smallAsk) idleState).any fun s =>
      s.isComplete && (s.delivered.isEmpty && decide (smallAsk.id ∈ s.receiveBlocks))) = true := by
    decide +kernel
  obtain ⟨s, hrun, htest⟩ := Run.of_foldlM hends
  simp only [Bool.and_eq_true, List.isEmpty_iff, decide_eq_true_eq] at htest
  refine ⟨s, idleState_start, hrun, complete_of_isComplete htest.1, ?_, htest.2.2⟩
  simp [State.deliveredFor, htest.2.1]

end TurboOctopus.Eth
