import TurboOctopus.Lib.Runs
import Mathlib.Data.List.Count
/-!
# The crawler and its reader

A crawler talks to one remote host. `run` pings it, waits for a pong and for a
ping, asks for nodes, closes the socket and waits for `readLoop` to end. `readLoop`
reads packets and puts a token on a channel for every ping and every pong. `run`
takes one token of each at most, the channels have room for ten, and a reader that
stands at a full channel does not see that the socket was closed. So the remote
host decides whether `run` returns: `crawler_never_wedges_iff`.
-/
namespace TurboOctopus.NodeManager

open Lib

/-- A packet, by what `handlePacket` makes of it: `v4wire.Decode` fails, or it is
one of the kinds that have a handler, or one of the others. -/
inductive Packet
  | invalid
  /-- `encodes` says whether the pong that answers it can be encoded. -/
  | ping (encodes : Bool)
  | pong
  | neighbors
  | enrResponse (valid : Bool)
  | other
deriving DecidableEq

/-- Where `run` is. -/
inductive RunAt
  | waitPong
  | waitPing
  /-- It has asked for nodes and for the record, and sleeps. -/
  | asked
  | closing
  /-- In `wg.Wait`. -/
  | waiting
  | returned
deriving DecidableEq

/-- Where `readLoop` is. -/
inductive ReaderAt
  | reading
  | sendPing
  | sendPong
  | done
deriving DecidableEq

/-- `pings` and `pongs` are the tokens in `waitRemotePingCh` and `waitRemotePongCh`;
`incoming` is what the remote host has sent or will send. -/
structure Crawler where
  run : RunAt
  reader : ReaderAt
  connOpen : Bool
  pings : Nat
  pongs : Nat
  haveEnr : Bool
  incoming : List Packet

/-- The room of both channels. -/
def tokens : Nat := 10

/-- The moment `run` has started `readLoop`. -/
def crawl (packets : List Packet) : Crawler := ⟨.waitPong, .reading, true, 0, 0, false, packets⟩

/-- The handlers of packets. A pong is not sent for a ping whose answer cannot be
encoded, and no token either. -/
def Crawler.handlePacket (c : Crawler) : Packet → Crawler
  | .ping true => { c with reader := .sendPing }
  | .pong => { c with reader := .sendPong }
  | .enrResponse true => { c with haveEnr := true }
  | .invalid | .ping false | .neighbors | .enrResponse false | .other => c

inductive CrawlAction
  /-- Steps of `run`. -/
  | takePong
  | pongTimeout
  | takePing
  | pingTimeout
  | wake
  | close
  | join
  /-- Steps of `readLoop`: a packet, a temporary error, a lasting one, a token. -/
  | read
  | retry
  | fail
  | putPing
  | putPong
  /-- The network loses a packet. -/
  | lose
deriving DecidableEq

def Crawler.step (c : Crawler) : CrawlAction → Option Crawler
  | .takePong =>
    if c.run = .waitPong ∧ 0 < c.pongs then some { c with run := .waitPing, pongs := c.pongs - 1 } else none
  | .pongTimeout => if c.run = .waitPong then some { c with run := .closing } else none
  | .takePing =>
    if c.run = .waitPing ∧ 0 < c.pings then some { c with run := .asked, pings := c.pings - 1 } else none
  | .pingTimeout => if c.run = .waitPing then some { c with run := .asked } else none
  | .wake => if c.run = .asked then some { c with run := .closing } else none
  | .close => if c.run = .closing then some { c with run := .waiting, connOpen := false } else none
  | .join => if c.run = .waiting ∧ c.reader = .done then some { c with run := .returned } else none
  | .read =>
    if c.reader = .reading ∧ c.connOpen then
      match c.incoming with
      | [] => none
      | p :: rest => some ({ c with incoming := rest }.handlePacket p)
    else none
  | .retry => if c.reader = .reading ∧ c.connOpen then some c else none
  | .fail => if c.reader = .reading then some { c with reader := .done } else none
  | .putPing =>
    if c.reader = .sendPing ∧ c.pings < tokens then some { c with reader := .reading, pings := c.pings + 1 } else none
  | .putPong =>
    if c.reader = .sendPong ∧ c.pongs < tokens then some { c with reader := .reading, pongs := c.pongs + 1 } else none
  | .lose => if c.incoming = [] then none else some { c with incoming := c.incoming.tail }

/-- One action, as a step of `Run`. -/
def Crawler.Steps (c : Crawler) (a : CrawlAction) (d : Crawler) : Prop := c.step a = some d

/-- `run` is in `wg.Wait` and the reader at a send, and whatever happens it stays
there. -/
def Crawler.Wedged (c : Crawler) : Prop :=
  c.run = .waiting ∧ (c.reader = .sendPing ∨ c.reader = .sendPong) ∧
    ∀ es d, Run Crawler.Steps c es d → d.reader = c.reader

/-- The reader stands at a full channel. -/
def Crawler.Blocked (c : Crawler) : Prop :=
  (c.reader = .sendPing ∧ tokens ≤ c.pings) ∨ (c.reader = .sendPong ∧ tokens ≤ c.pongs)

open Crawler

/-- While `run` waits only the network can move a blocked crawler. -/
lemma blocked_step {c d : Crawler} {a : CrawlAction} (hw : c.run = .waiting) (hb : c.Blocked)
    (hs : c.Steps a d) : d.run = .waiting ∧ d.Blocked ∧ d.reader = c.reader := by
  have hreader : c.reader ≠ .reading ∧ c.reader ≠ .done := by
    rcases hb with ⟨hr, -⟩ | ⟨hr, -⟩ <;> simp [hr]
  cases a with
  | lose =>
    simp only [Crawler.Steps, step] at hs
    split at hs
    · cases hs
    · cases hs
      exact ⟨hw, hb, rfl⟩
  | putPing | putPong =>
    rcases hb with ⟨hr, hfull⟩ | ⟨hr, hfull⟩ <;> simp [Crawler.Steps, step, hr, Nat.not_lt.2 hfull] at hs
  | takePong | pongTimeout | takePing | pingTimeout | wake | close | join | read | retry | fail =>
    simp [Crawler.Steps, step, hw, hreader] at hs

/-- A crawler is wedged exactly where `run` waits for a reader at a full channel. -/
lemma wedged_iff {c : Crawler} : c.Wedged ↔ c.run = .waiting ∧ c.Blocked := by
  constructor
  · rintro ⟨hw, hsend, hstay⟩
    refine ⟨hw, ?_⟩
    -- where there is room the token goes in, and the reader reads on
    rcases hsend with hr | hr
    · refine .inl ⟨hr, Nat.not_lt.1 fun hroom => ?_⟩
      have := hstay [.putPing] { c with reader := .reading, pings := c.pings + 1 }
        (.single (by simp [Crawler.Steps, step, hr, hroom]))
      simp [hr] at this
    · refine .inr ⟨hr, Nat.not_lt.1 fun hroom => ?_⟩
      have := hstay [.putPong] { c with reader := .reading, pongs := c.pongs + 1 }
        (.single (by simp [Crawler.Steps, step, hr, hroom]))
      simp [hr] at this
  · rintro ⟨hw, hb⟩
    refine ⟨hw, hb.imp And.left And.left, fun es d hrun => ?_⟩
    have hinv : d.run = .waiting ∧ d.Blocked ∧ d.reader = c.reader :=
      hrun.inv (fun e => e.run = .waiting ∧ e.Blocked ∧ e.reader = c.reader) ⟨hw, hb, rfl⟩
        fun e a f he hs => by
          obtain ⟨hw', hb', hr'⟩ := blocked_step he.1 he.2.1 hs
          exact ⟨hw', hb', hr'.trans he.2.2⟩
    exact hinv.2.2

/-! ## How many tokens there can be -/

/-- One more for a token the reader is about to put. -/
def Crawler.atPing (c : Crawler) : Nat := if c.reader = .sendPing then 1 else 0
def Crawler.atPong (c : Crawler) : Nat := if c.reader = .sendPong then 1 else 0

/-- The tokens, those on their way and those still to come are not more than the
packets the remote host sent. -/
def Crawler.Within (pings pongs : Nat) (c : Crawler) : Prop :=
  c.pings + c.atPing + c.incoming.count (.ping true) ≤ pings ∧ c.pongs + c.atPong + c.incoming.count .pong ≤ pongs

section Within
variable {c d : Crawler} {a : CrawlAction} {pings pongs : Nat}

namespace Crawler

lemma Within.read {p : Packet} {rest : List Packet} (h : c.Within pings pongs) (hr : c.reader = .reading)
    (hi : c.incoming = p :: rest) : ({ c with incoming := rest }.handlePacket p).Within pings pongs := by
  simp only [Within, atPing, atPong, hr, hi, List.count_cons] at h
  rcases p with _ | ⟨_ | _⟩ | _ | _ | ⟨_ | _⟩ | _ <;>
    simp_all [handlePacket, Within, atPing, atPong] <;> omega

lemma Within.step (h : c.Within pings pongs) (hs : c.step a = some d) : d.Within pings pongs := by
  cases a with
  | read =>
    simp only [step] at hs
    split at hs
    · split at hs
      · cases hs
      · cases hs
        exact h.read (by simp_all) ‹_›
    · cases hs
  | lose =>
    simp only [step] at hs
    split at hs
    · cases hs
    · cases hs
      obtain ⟨p, rest, hi⟩ := List.exists_cons_of_ne_nil ‹_›
      simp only [Within, atPing, atPong, hi, List.tail_cons, List.count_cons] at h ⊢
      omega
  | takePong | pongTimeout | takePing | pingTimeout | wake | close | join | retry | fail | putPing | putPong =>
    simp only [step] at hs
    split at hs
    · cases hs
      simp_all [Within, atPing, atPong]
      try omega
    · cases hs

lemma Within.not_blocked (h : c.Within pings pongs) (h1 : pings ≤ tokens) (h2 : pongs ≤ tokens) : ¬ c.Blocked := by
  rintro (⟨hr, hfull⟩ | ⟨hr, hfull⟩)
  · have hcount := h.1
    simp only [atPing, hr, if_pos] at hcount
    omega
  · have hcount := h.2
    simp only [atPong, hr, if_pos] at hcount
    omega

end Crawler

end Within

/-! ## How a remote host blocks the reader -/

/-- With more pings or more pongs to come than there is room for, a reader that
reads on is blocked before `run` closes the socket. -/
lemma reads_until_blocked (c : Crawler) (hr : c.reader = .reading) (hopen : c.connOpen = true)
    (hmany : tokens < c.pings + c.incoming.count (.ping true) ∨ tokens < c.pongs + c.incoming.count .pong)
    (hp : c.pings ≤ tokens) (hq : c.pongs ≤ tokens) : ∃ es d, Run Crawler.Steps c es d ∧ d.run = c.run ∧ d.Blocked := by
  obtain ⟨run, reader, connOpen, pings, pongs, enr, incoming⟩ := c
  obtain rfl : reader = .reading := hr
  obtain rfl : connOpen = true := hopen
  induction incoming generalizing pings pongs enr with
  | nil =>
    simp only [List.count_nil] at hmany hp hq
    omega
  | cons p rest ih =>
    have hread : Crawler.Steps ⟨run, .reading, true, pings, pongs, enr, p :: rest⟩ .read
        (handlePacket ⟨run, .reading, true, pings, pongs, enr, rest⟩ p) := by
      simp [Crawler.Steps, step]
    simp only [List.count_cons] at hmany
    rcases p with _ | ⟨_ | _⟩ | _ | _ | ⟨_ | _⟩ | _
    case ping.true =>
      rcases Nat.lt_or_ge pings tokens with hroom | hfull
      · obtain ⟨es, d, hes, hd⟩ := ih (pings + 1) pongs enr (by simp at hmany ⊢; omega) hroom hq
        refine ⟨.read :: .putPing :: es, d, .cons hread (.cons ?_ hes), hd⟩
        simp [Crawler.Steps, step, handlePacket, hroom]
      · exact ⟨[.read], _, .single hread, rfl, .inl ⟨rfl, hfull⟩⟩
    case pong =>
      rcases Nat.lt_or_ge pongs tokens with hroom | hfull
      · obtain ⟨es, d, hes, hd⟩ := ih pings (pongs + 1) enr (by simp at hmany ⊢; omega) hp hroom
        refine ⟨.read :: .putPong :: es, d, .cons hread (.cons ?_ hes), hd⟩
        simp [Crawler.Steps, step, handlePacket, hroom]
      · exact ⟨[.read], _, .single hread, rfl, .inr ⟨rfl, hfull⟩⟩
    -- no other packet makes a token
    case enrResponse.true =>
      obtain ⟨es, d, hes, hd⟩ := ih pings pongs true (by simpa using hmany) hp hq
      exact ⟨.read :: es, d, .cons hread hes, hd⟩
    all_goals
      obtain ⟨es, d, hes, hd⟩ := ih pings pongs enr (by simpa using hmany) hp hq
      exact ⟨.read :: es, d, .cons hread hes, hd⟩

/-- A crawler cannot be wedged exactly if the remote host sends ten pings to
answer and ten pongs at most. -/
theorem crawler_never_wedges_iff (packets : List Packet) :
    (∀ es c, Run Crawler.Steps (crawl packets) es c → ¬ c.Wedged) ↔
      packets.count (.ping true) ≤ tokens ∧ packets.count .pong ≤ tokens := by
  constructor
  · intro hnever
    by_contra hmany
    -- `run` gives up on the pong, the reader reads on, and only then the socket is closed
    obtain ⟨es, d, hes, hrun, hb⟩ := reads_until_blocked { crawl packets with run := .closing } rfl rfl
      (by simp [crawl]; omega) (Nat.zero_le _) (Nat.zero_le _)
    have hstart : Crawler.Steps (crawl packets) .pongTimeout { crawl packets with run := .closing } := by
      simp [Crawler.Steps, Crawler.step, crawl]
    have hclose : Crawler.Steps d .close { d with run := .waiting, connOpen := false } := by
      simp [Crawler.Steps, Crawler.step, hrun]
    exact hnever _ _ (.cons hstart (hes.append (.single hclose))) (wedged_iff.2 ⟨rfl, hb⟩)
  · rintro ⟨hpings, hpongs⟩ es c hrun hw
    have hwithin : c.Within (packets.count (.ping true)) (packets.count .pong) :=
      hrun.inv _ (by simp [Crawler.Within, Crawler.atPing, Crawler.atPong, crawl]) fun _ _ _ h hs => h.step hs
    exact hwithin.not_blocked hpings hpongs (wedged_iff.1 hw).2

/-- `run` gives up on the pong, and the reader reads on until the socket is closed. -/
def readElevenPings : List CrawlAction :=
  CrawlAction.pongTimeout :: (List.replicate 10 [CrawlAction.read, .putPing]).flatten ++
    ([.read, .close] : List CrawlAction)

/-- Eleven pings, and no pong in time. -/
theorem eleven_pings_wedge :
    ∃ c, Run Crawler.Steps (crawl (List.replicate 11 (.ping true))) readElevenPings c ∧ c.Wedged := by
  have hfound : ∃ c, Run Crawler.Steps (crawl (List.replicate 11 (.ping true))) readElevenPings c ∧
      decide (c.run = .waiting ∧ c.reader = .sendPing ∧ tokens ≤ c.pings) = true := Run.of_foldlM (by decide +kernel)
  obtain ⟨c, hrun, hc⟩ := hfound
  obtain ⟨hw, hr, hfull⟩ := of_decide_eq_true hc
  exact ⟨c, hrun, wedged_iff.2 ⟨hw, .inl ⟨hr, hfull⟩⟩⟩

end TurboOctopus.NodeManager
