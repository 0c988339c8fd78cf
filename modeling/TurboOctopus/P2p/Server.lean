import TurboOctopus.P2p.Dial
/-!
# The books of the p2p server

`Server.run` keeps the peers in a map and counts the inbound ones, and tells the dial
scheduler of every peer that comes or goes; the scheduler counts the dialed ones. The
channels between the two have no room: `run` waits until the loop of the scheduler takes
a change, and the loop deals with it while `run` goes on. With the changes that are on
their way the counters are always right (`books_balanced`).
-/
namespace TurboOctopus.P2p

open Lib Finmap ConnFlag

/-! ## Flags -/

lemma ConnFlag.is_set {flags f g : ConnFlag} (h : f &&& g = 0) (val : Bool) :
    is (set flags g val) f = is flags f := by
  have hbits : set flags g val &&& f = flags &&& f := by
    apply BitVec.eq_of_getLsbD_eq
    intro i hi
    have hbit : (f.getLsbD i && g.getLsbD i) = false := by
      rw [← BitVec.getLsbD_and, h]
      exact BitVec.getLsbD_zero
    cases val <;> cases hf : f.getLsbD i <;> simp_all [set]
  rw [is, hbits, is]

/-- The trust of a connection has nothing to do with where it came from. -/
lemma ConnFlag.trust_inbound (flags : ConnFlag) (val : Bool) :
    is (set flags trustedConn val) inboundConn = is flags inboundConn :=
  is_set (by decide) val

lemma ConnFlag.trust_dialed (flags : ConnFlag) (val : Bool) : dialed (set flags trustedConn val) = dialed flags := by
  rw [dialed, is_set (by decide), is_set (by decide), dialed]

/-! ## The server -/

/-- The name and version of a protocol. -/
abbrev Cap := String × Nat

/-- A connection past its handshakes; its flags are in the state. -/
structure Conn where
  node : NodeId
  caps : List Cap

structure ServerConfig where
  self : NodeId
  maxPeers : Int
  noDial : Bool
  dialRatio : Int
  protocols : List Cap
  trustedNodes : List NodeId

def ServerConfig.maxDialedConns (cfg : ServerConfig) : Int :=
  if cfg.noDial ∨ cfg.maxPeers = 0 then 0
  else
    let limit := if cfg.dialRatio = 0 then cfg.maxPeers.tdiv 3 else cfg.maxPeers.tdiv cfg.dialRatio
    if limit = 0 then 1 else limit

def ServerConfig.maxInboundConns (cfg : ServerConfig) : Int := cfg.maxPeers - cfg.maxDialedConns

inductive DiscReason
  | uselessPeer
  | tooManyPeers
  | alreadyConnected
  | self
deriving DecidableEq

/-- A peer that came or went, for the dial scheduler. -/
inductive PeerChange (κ : Type)
  | added (c : κ)
  | removed (c : κ)
deriving DecidableEq

/-- `handing` is the change that `run` waits with, and `received` the one the loop of the
dial scheduler has taken and not dealt with. `live` is not in the source: the peers that
were launched and have not been removed. -/
structure Server (κ : Type) where
  peers : GoMap NodeId κ
  inboundCount : Int
  trusted : Finset NodeId
  flags : κ → ConnFlag
  handing : Option (PeerChange κ)
  received : Option (PeerChange κ)
  dialer : Dialer
  live : List κ

section Server
variable {κ : Type} [DecidableEq κ] (cfg : ServerConfig) (conn : κ → Conn)

/-- Connections come with flags of `SetupConn`. -/
def Server.start (flags : κ → ConnFlag) (dialConfig : DialConfig) (now : Nat) : Server κ where
  peers := ∅
  inboundCount := 0
  trusted := cfg.trustedNodes.toFinset
  flags := flags
  handing := none
  received := none
  dialer := newDialScheduler dialConfig now
  live := []

def countMatchingProtocols (protocols caps : List Cap) : Nat := (caps.map fun cap => protocols.count cap).sum

def Server.postHandshakeChecks (s : Server κ) (c : κ) : Except DiscReason Unit :=
  if ¬ ConnFlag.is (s.flags c) trustedConn ∧ (s.peers.keys.card : Int) ≥ cfg.maxPeers then .error .tooManyPeers
  else if ¬ ConnFlag.is (s.flags c) trustedConn ∧ ConnFlag.is (s.flags c) inboundConn ∧
      s.inboundCount ≥ cfg.maxInboundConns then .error .tooManyPeers
  else if (conn c).node ∈ s.peers then .error .alreadyConnected
  else if (conn c).node = cfg.self then .error .self
  else .ok ()

def Server.addPeerChecks (s : Server κ) (c : κ) : Except DiscReason Unit :=
  if cfg.protocols.length > 0 ∧ countMatchingProtocols cfg.protocols (conn c).caps = 0 then .error .uselessPeer
  else s.postHandshakeChecks cfg conn c

/-- `set` of a connection's flags. -/
def Server.setTrust (s : Server κ) (c : κ) (val : Bool) : Server κ :=
  { s with flags := Function.update s.flags c (ConnFlag.set (s.flags c) trustedConn val) }

/-- The peer of a node gets or loses its trust. -/
def Server.setPeerTrust (s : Server κ) (id : NodeId) (val : Bool) : Server κ :=
  match s.peers.lookup id with
  | some c => s.setTrust c val
  | none => s

/-- What a change does to the count of inbound peers. -/
def PeerChange.countInbound (flags : κ → ConnFlag) (count : Int) : PeerChange κ → Int
  | .added c => if ConnFlag.is (flags c) inboundConn then count + 1 else count
  | .removed c => if ConnFlag.is (flags c) inboundConn then count - 1 else count

/-- The event that a change is for the loop of the dial scheduler. -/
def PeerChange.event (flags : κ → ConnFlag) : PeerChange κ → DialAction
  | .added c => .addPeer (conn c).node (flags c)
  | .removed c => .remPeer (conn c).node (flags c)

/-- A step of the loop that is not for a peer's coming and going. -/
def DialAction.ofLoop : DialAction → Bool
  | .freeDialSlots | .startStatic _ | .endStatics | .rearm | .logStats | .node _ | .done _ | .addStatic _
  | .remStatic _ | .historyExp | .stop | .startNode | .update => true
  | .addPeer _ _ | .remPeer _ _ | .startDialEnode _ _ | .managerCheck | .managerStart | .dialingCount
  | .resolve _ _ _ | .tick _ => false

inductive ServerAction (κ : Type)
  /-- The events of `run`. -/
  | postHandshake (c : κ)
  | addPeer (c : κ)
  | delPeer (c : κ)
  | addTrusted (id : NodeId)
  | removeTrusted (id : NodeId)
  /-- The loop of the dial scheduler takes what `run` waits with, and deals with it. -/
  | handOver
  | take
  /-- Any other step of the dial scheduler or of the manager. -/
  | dial (a : DialAction)

/-- An event of `run`. -/
def Server.event (s : Server κ) : ServerAction κ → Option (Server κ)
  | .postHandshake c => some (if (conn c).node ∈ s.trusted then s.setTrust c true else s)
  | .addPeer c =>
    match s.addPeerChecks cfg conn c with
    | .ok _ =>
      some { s with peers := s.peers.insert (conn c).node c, live := c :: s.live, handing := some (.added c) }
    | .error _ => some s
  | .delPeer c =>
    if c ∈ s.live then
      some { s with peers := s.peers.erase (conn c).node, live := s.live.erase c, handing := some (.removed c) }
    else none
  | .addTrusted id => some ({ s with trusted := insert id s.trusted }.setPeerTrust id true)
  | .removeTrusted id => some ({ s with trusted := s.trusted.erase id }.setPeerTrust id false)
  | .handOver | .take | .dial _ => none

def Server.step (s : Server κ) : ServerAction κ → Option (Server κ)
  | .handOver =>
    match s.handing with
    | some change =>
      if s.received = none ∧ s.dialer.AtSelect then
        some { s with handing := none, received := some change,
                      inboundCount := change.countInbound s.flags s.inboundCount }
      else none
    | none => none
  | .take =>
    match s.received with
    | some change => (s.dialer.step (change.event conn s.flags)).map fun d => { s with dialer := d, received := none }
    | none => none
  | .dial a =>
    if a.ofPeers ∨ (a.ofLoop ∧ s.received ≠ none) then none
    else (s.dialer.step a).map fun d => { s with dialer := d }
  | .postHandshake c => if s.handing = none then s.event cfg conn (.postHandshake c) else none
  | .addPeer c => if s.handing = none then s.event cfg conn (.addPeer c) else none
  | .delPeer c => if s.handing = none then s.event cfg conn (.delPeer c) else none
  | .addTrusted id => if s.handing = none then s.event cfg conn (.addTrusted id) else none
  | .removeTrusted id => if s.handing = none then s.event cfg conn (.removeTrusted id) else none

variable {a : ServerAction κ} {c : κ} {d d' : Dialer} {x : PeerChange κ}

open Server

omit [DecidableEq κ] in
/-- What the checks of a connection that is added have seen. -/
lemma Server.addPeerChecks_ok {s : Server κ} {u : Unit} (h : s.addPeerChecks cfg conn c = .ok u) :
    (conn c).node ∉ s.peers ∧ (conn c).node ≠ cfg.self ∧ (is (s.flags c) trustedConn = false →
      (s.peers.keys.card : Int) < cfg.maxPeers ∧
        (is (s.flags c) inboundConn → s.inboundCount < cfg.maxInboundConns)) := by
  simp only [addPeerChecks, postHandshakeChecks] at h
  split_ifs at h with hcaps hmax hinbound hpeers hself
  refine ⟨hpeers, hself, fun htrust => ?_⟩
  simp only [htrust, Bool.false_eq_true, not_false_iff, true_and, ge_iff_le, not_le] at hmax hinbound
  exact ⟨hmax, fun hin => not_le.1 fun hle => hinbound ⟨hin, hle⟩⟩

/-! ## The books -/

/-- What the dial scheduler keeps of the peers. -/
structure Tally where
  peers : Finset NodeId
  dialPeers : Int

def Dialer.tally (d : Dialer) : Tally := ⟨d.peers, d.dialPeers⟩

def PeerChange.apply (flags : κ → ConnFlag) (y : Tally) : PeerChange κ → Tally
  | .added c => ⟨insert (conn c).node y.peers, if (flags c).dialed then y.dialPeers + 1 else y.dialPeers⟩
  | .removed c => ⟨y.peers.erase (conn c).node, if (flags c).dialed then y.dialPeers - 1 else y.dialPeers⟩

/-- The scheduler's part with the change its loop has taken. -/
def Server.afterReceived (s : Server κ) : Tally :=
  s.received.elim s.dialer.tally (·.apply conn s.flags s.dialer.tally)

/-- The scheduler's part with all changes that are on their way. -/
def Server.settled (s : Server κ) : Tally :=
  s.handing.elim (s.afterReceived conn) (·.apply conn s.flags (s.afterReceived conn))

/-- The count of inbound peers with the change `run` waits with. -/
def Server.settledInbound (s : Server κ) : Int :=
  s.handing.elim s.inboundCount (·.countInbound s.flags s.inboundCount)

structure Server.Books (s : Server κ) : Prop where
  live : ∀ c, c ∈ s.live ↔ s.peers.lookup (conn c).node = some c
  named : ∀ id c, s.peers.lookup id = some c → (conn c).node = id
  distinct : s.live.Nodup
  self : cfg.self ∉ s.peers
  inbound : s.settledInbound = countIf s.peers fun c => ConnFlag.is (s.flags c) inboundConn
  dialed : (s.settled conn).dialPeers = countIf s.peers fun c => (s.flags c).dialed
  keys : (s.settled conn).peers = s.peers.keys

variable {cfg} {conn} {s t : Server κ}

section
omit [DecidableEq κ]

lemma Server.books_start (flags : κ → ConnFlag) (dialConfig : DialConfig) (now : Nat) :
    (start cfg flags dialConfig now).Books cfg conn where
  live c := by simp [start]
  named id c h := by simp [start] at h
  distinct := List.nodup_nil
  self := notMem_empty
  inbound := rfl
  dialed := rfl
  keys := rfl

/-- Nothing of the books changes. -/
lemma Server.Books.of_eq (h : s.Books cfg conn) (hl : t.live = s.live) (hp : t.peers = s.peers)
    (hf : ∀ c, is (t.flags c) inboundConn = is (s.flags c) inboundConn ∧ (t.flags c).dialed = (s.flags c).dialed)
    (hi : t.settledInbound = s.settledInbound) (ht : t.settled conn = s.settled conn) : t.Books cfg conn where
  live := by rw [hl, hp]; exact h.live
  named := by rw [hp]; exact h.named
  distinct := by rw [hl]; exact h.distinct
  self := by rw [hp]; exact h.self
  inbound := by rw [hi, hp, countIf_congr fun c => (hf c).1]; exact h.inbound
  dialed := by rw [ht, hp, countIf_congr fun c => (hf c).2]; exact h.dialed
  keys := by rw [ht, hp]; exact h.keys

end

open PeerChange

namespace Server

lemma Books.setTrust (h : s.Books cfg conn) (c : κ) (val : Bool) : (s.setTrust c val).Books cfg conn := by
  have hf : ∀ k, is ((s.setTrust c val).flags k) inboundConn = is (s.flags k) inboundConn ∧
      ((s.setTrust c val).flags k).dialed = (s.flags k).dialed := fun k => by
    by_cases hk : k = c
    · subst hk
      simp [Server.setTrust, trust_inbound, trust_dialed]
    · simp [Server.setTrust, hk]
  have happly : ∀ y, (fun x : PeerChange κ => x.apply conn (s.setTrust c val).flags y) = fun x => x.apply conn s.flags y := by
    intro y
    funext x
    cases x <;> simp [apply, hf]
  have hcount : ∀ n, (fun x : PeerChange κ => x.countInbound (s.setTrust c val).flags n) =
      fun x => x.countInbound s.flags n := by
    intro n
    funext x
    cases x <;> simp [countInbound, hf]
  refine h.of_eq rfl rfl hf ?_ ?_
  · rw [settledInbound, hcount]
    rfl
  · simp only [settled, afterReceived, happly]
    rfl

lemma Books.setPeerTrust (h : s.Books cfg conn) (id : NodeId) (val : Bool) :
    (s.setPeerTrust id val).Books cfg conn := by
  simp only [Server.setPeerTrust]
  split
  · exact h.setTrust _ val
  · exact h

section
omit [DecidableEq κ]

/-- `run` waits with a change: it counts from now on. -/
lemma settled_of_handing (conn : κ → Conn) (hs : s.handing = none) (ht : t.handing = some x) (hf : t.flags = s.flags)
    (hr : t.received = s.received) (hd : t.dialer = s.dialer) (hi : t.inboundCount = s.inboundCount) : t.settled conn =
      x.apply conn s.flags (s.settled conn) ∧ t.settledInbound = x.countInbound s.flags s.settledInbound := by
  simp [settled, settledInbound, afterReceived, hs, ht, hf, hr, hd, hi]

lemma Books.add (h : s.Books cfg conn) (hh : s.handing = none) (hnew : (conn c).node ∉ s.peers)
    (hself : (conn c).node ≠ cfg.self) :
    { s with peers := s.peers.insert (conn c).node c, live := c :: s.live, handing := some (.added c) }.Books
      cfg conn := by
  obtain ⟨hsettled, hinbound⟩ := settled_of_handing conn (x := .added c) (t := { s with
    peers := s.peers.insert (conn c).node c, live := c :: s.live, handing := some (.added c) }) hh rfl rfl rfl rfl rfl
  constructor
  · intro k
    rw [List.mem_cons, h.live, lookup_insert_iff]
    constructor
    · rintro (rfl | hk)
      · exact .inl ⟨rfl, rfl⟩
      · refine .inr ⟨fun he => hnew ?_, hk⟩
        exact he ▸ mem_iff.2 ⟨k, hk⟩
    · rintro (⟨-, rfl⟩ | ⟨-, hk⟩)
      · exact .inl rfl
      · exact .inr hk
  · intro id k hk
    rcases lookup_insert_iff.1 hk with ⟨rfl, rfl⟩ | ⟨-, hk⟩
    · rfl
    · exact h.named id k hk
  · refine List.nodup_cons.2 ⟨fun hmem => hnew ?_, h.distinct⟩
    exact mem_iff.2 ⟨c, (h.live c).1 hmem⟩
  · intro hmem
    exact (mem_insert.1 hmem).elim (fun he => hself he.symm) h.self
  · rw [hinbound, countIf_insert hnew, countInbound, h.inbound]
    split <;> simp
  · rw [hsettled, countIf_insert hnew, apply, h.dialed]
    split <;> simp
  · ext id
    rw [hsettled, apply, h.keys]
    simp only [Finset.mem_insert, mem_keys, mem_insert]

end

lemma Books.remove (h : s.Books cfg conn) (hh : s.handing = none) (hc : c ∈ s.live) :
    { s with peers := s.peers.erase (conn c).node, live := s.live.erase c, handing := some (.removed c) }.Books
      cfg conn := by
  obtain ⟨hsettled, hinbound⟩ := settled_of_handing conn (x := .removed c) (t := { s with
    peers := s.peers.erase (conn c).node, live := s.live.erase c, handing := some (.removed c) }) hh rfl rfl rfl rfl rfl
  have hown := (h.live c).1 hc
  constructor
  · intro k
    rw [h.distinct.mem_erase_iff, h.live, lookup_erase_iff]
    refine and_congr_left fun hk => not_congr ⟨fun he => by rw [he], fun he => ?_⟩
    rw [he, hown] at hk
    exact (Option.some.inj hk).symm
  · intro id k hk
    exact h.named id k (lookup_erase_iff.1 hk).2
  · exact h.distinct.erase c
  · exact fun hmem => h.self (mem_erase.1 hmem).2
  · rw [hinbound, countInbound, h.inbound, countIf_erase hown]
    split <;> simp
  · rw [hsettled, apply, h.dialed, countIf_erase hown]
    split <;> simp
  · ext id
    rw [hsettled, apply, h.keys]
    simp only [Finset.mem_erase, mem_keys, mem_erase]

end Server

omit [DecidableEq κ] in
/-- The event that a change is for the loop does to its part what the change says. -/
lemma PeerChange.tally_of_step {flags : κ → ConnFlag}
    (hs : d.step (x.event conn flags) = some d') : d'.tally = x.apply conn flags d.tally := by
  have heffect := Dialer.effect_of_step hs
  cases x with
  | added c =>
    cases heffect with
    | addPeer id flags hp hd => simp [Dialer.tally, apply, hp, hd, Dialer.peerAdded]
    | quiet ha => cases ha
    | starts k _ _ _ hstarts => exact hstarts.elim
  | removed c =>
    cases heffect with
    | remPeer id flags hp hd => simp [Dialer.tally, apply, hp, hd, Dialer.peerRemoved]
    | quiet ha => cases ha
    | starts k _ _ _ hstarts => exact hstarts.elim

/-- No other step of the scheduler touches it. -/
lemma Dialer.tally_of_step {a : DialAction} (ha : a.ofPeers = false) (hs : d.step a = some d') :
    d'.tally = d.tally := by
  cases Dialer.effect_of_step hs with
  | quiet _ hp hd | done _ hp hd | starts _ hp hd => simp [Dialer.tally, hp, hd]
  | addPeer | remPeer => cases ha

lemma Server.Books.event (h : s.Books cfg conn) (hh : s.handing = none)
    (hs : s.event cfg conn a = some t) : t.Books cfg conn := by
  cases a with
  | postHandshake c =>
    cases hs
    split
    · exact h.setTrust c true
    · exact h
  | addPeer c =>
    simp only [event] at hs
    split at hs <;> cases hs
    · next u hok =>
      obtain ⟨hnew, hself, -⟩ := s.addPeerChecks_ok cfg conn hok
      exact h.add hh hnew hself
    · exact h
  | delPeer c =>
    simp only [event] at hs
    split at hs <;> cases hs
    exact h.remove hh ‹_›
  | addTrusted id =>
    cases hs
    have hbooks : { s with trusted := insert id s.trusted }.Books cfg conn :=
      h.of_eq rfl rfl (fun _ => ⟨rfl, rfl⟩) rfl rfl
    exact hbooks.setPeerTrust id true
  | removeTrusted id =>
    cases hs
    have hbooks : { s with trusted := s.trusted.erase id }.Books cfg conn :=
      h.of_eq rfl rfl (fun _ => ⟨rfl, rfl⟩) rfl rfl
    exact hbooks.setPeerTrust id false
  | handOver | take | dial => cases hs

lemma Server.Books.step (h : s.Books cfg conn) (hs : s.step cfg conn a = some t) : t.Books cfg conn := by
  cases a with
  | handOver =>
    simp only [step] at hs
    split at hs
    · next x hx =>
      split at hs <;> cases hs
      next hr =>
      refine h.of_eq rfl rfl (fun _ => ⟨rfl, rfl⟩) ?_ ?_
      · simp [settledInbound, hx]
      · simp [settled, afterReceived, hx, hr.1]
    · cases hs
  | take =>
    simp only [step] at hs
    split at hs
    · next x hx =>
      obtain ⟨d, hd, rfl⟩ := Option.map_eq_some_iff.1 hs
      refine h.of_eq rfl rfl (fun _ => ⟨rfl, rfl⟩) rfl ?_
      simp [settled, afterReceived, hx, tally_of_step hd]
    · cases hs
  | dial a =>
    simp only [step] at hs
    split at hs
    · cases hs
    · next hnot =>
      obtain ⟨d, hd, rfl⟩ := Option.map_eq_some_iff.1 hs
      have htally := Dialer.tally_of_step (by simpa using fun ha => hnot (.inl ha)) hd
      refine h.of_eq rfl rfl (fun _ => ⟨rfl, rfl⟩) rfl ?_
      simp [settled, afterReceived, htally]
  | postHandshake | addPeer | delPeer | addTrusted | removeTrusted =>
    simp only [step] at hs
    split at hs
    · exact h.event ‹_› hs
    · cases hs

/-- In every run: the count of inbound peers and the dial scheduler's count and set are
those of the map, up to the changes on their way, and exactly where there are none; no
two live peers share a node, and the live ones are those in the map; the local node is
none of them; and a connection without trust was added below the limits. -/
theorem books_balanced {flags : κ → ConnFlag} {dialConfig : DialConfig} {now : Nat} {es : List (ServerAction κ)}
    (hrun : Run (fun s a t => s.step cfg conn a = some t) (Server.start cfg flags dialConfig now) es s) :
    (s.settledInbound = countIf s.peers (fun c => ConnFlag.is (s.flags c) inboundConn) ∧
      (s.handing = none → s.inboundCount = countIf s.peers fun c => ConnFlag.is (s.flags c) inboundConn)) ∧
    ((s.settled conn).dialPeers = countIf s.peers (fun c => (s.flags c).dialed) ∧
      (s.settled conn).peers = s.peers.keys ∧
      (s.handing = none → s.received = none →
        s.dialer.dialPeers = countIf s.peers (fun c => (s.flags c).dialed) ∧ s.dialer.peers = s.peers.keys)) ∧
    ((s.live.map fun c => (conn c).node).Nodup ∧ ∀ c, c ∈ s.live ↔ s.peers.lookup (conn c).node = some c) ∧
    cfg.self ∉ s.peers ∧
    ∀ c t, s.step cfg conn (.addPeer c) = some t → c ∉ s.live → c ∈ t.live →
      ConnFlag.is (s.flags c) trustedConn = false → (s.peers.keys.card : Int) < cfg.maxPeers ∧
        (ConnFlag.is (s.flags c) inboundConn → s.inboundCount < cfg.maxInboundConns) := by
  have h : s.Books cfg conn := hrun.inv _ (Server.books_start flags dialConfig now) fun _ _ _ h hs => h.step hs
  refine ⟨⟨h.inbound, fun hh => ?_⟩, ⟨h.dialed, h.keys, fun hh hr => ?_⟩, ⟨?_, h.live⟩, h.self, fun c t hs hnew hc => ?_⟩
  · rw [← h.inbound, Server.settledInbound, hh]
    rfl
  · rw [← h.dialed, ← h.keys, Server.settled, hh, Server.afterReceived, hr]
    exact ⟨rfl, rfl⟩
  · refine h.distinct.map_on fun c hc k hk heq => ?_
    have hsame := (h.live c).1 hc
    rw [heq, (h.live k).1 hk] at hsame
    exact (Option.some.inj hsame).symm
  · simp only [Server.step, Server.event] at hs
    split at hs
    · split at hs <;> cases hs
      · next u hok => exact (s.addPeerChecks_ok cfg conn hok).2.2
      · exact absurd hc hnew
    · cases hs

end Server

/-- One connection from outside and one that was dialed. -/
def twoConns : Bool → Conn
  | true => ⟨1, [("eth", 66)]⟩
  | false => ⟨2, [("eth", 66)]⟩

def twoFlags : Bool → ConnFlag
  | true => inboundConn
  | false => dynDialedConn

def fiftyPeers : ServerConfig := ⟨0, 50, false, 3, [("eth", 66)], [1]⟩

/-- Both are added, the first one loses its trust and goes. -/
def comeAndGo : List (ServerAction Bool) :=
  [.postHandshake true, .dial .freeDialSlots, .dial .endStatics, .dial .rearm, .dial .logStats, .addPeer true,
   .handOver, .take, .dial .freeDialSlots, .dial .endStatics, .dial .rearm, .dial .logStats, .addPeer false,
   .handOver, .removeTrusted 1, .take, .dial .freeDialSlots, .dial .endStatics, .dial .rearm, .dial .logStats,
   .delPeer true, .handOver, .take]

theorem come_and_go_balanced : ∃ s : Server Bool,
      Run (fun s a t => s.step fiftyPeers twoConns a = some t)
        (Server.start fiftyPeers twoFlags ⟨0, 16, 50, none⟩ 0) comeAndGo s ∧
      (s.live = [false] ∧ s.inboundCount = 0 ∧ s.dialer.dialPeers = 1) ∧
      ((s.live.map fun c => (twoConns c).node).Nodup ∧ fiftyPeers.self ∉ s.peers) := by
  have hfound : ∃ s : Server Bool, Run (fun s a t => s.step fiftyPeers twoConns a = some t)
      (Server.start fiftyPeers twoFlags ⟨0, 16, 50, none⟩ 0) comeAndGo s ∧
      decide (s.live = [false] ∧ s.inboundCount = 0 ∧ s.dialer.dialPeers = 1) = true :=
    Run.of_foldlM (by decide +kernel)
  obtain ⟨s, hrun, hs⟩ := hfound
  obtain ⟨-, -, ⟨hnodes, -⟩, hself, -⟩ := books_balanced hrun
  exact ⟨s, hrun, of_decide_eq_true hs, hnodes, hself⟩

end TurboOctopus.P2p
