/-
# `Dolda.Raft.Node` — one node of a Raft cluster

`RaftNode` of `src/raft.rs`, as its three handlers change it.  Terms and node ids
are 64-bit words, and the term counter wraps (`fetch_add`, in the release build).
The time of the last heartbeat is left out: only the election timer reads it.  So
is `send_heartbeats`, which sends nothing yet.

After the three spec lemmas (`startElection_eq`, `handleVoteRequest_cases`,
`handleHeartbeat_cases`) no proof opens a handler again.
-/
import Mathlib.Data.List.AList
import Mathlib.Data.UInt

namespace Dolda.Raft

abbrev NodeId := UInt64

abbrev Term := UInt64

inductive NodeState where
  | follower
  | candidate
  | leader
deriving DecidableEq, Repr

structure RaftConfig where
  nodeId : NodeId
  clusterNodes : List NodeId
deriving DecidableEq, Repr

def RaftConfig.default : RaftConfig := { nodeId := 0, clusterNodes := [] }

structure VoteRequest where
  term : Term
  candidateId : NodeId
  lastLogIndex : UInt64
  lastLogTerm : Term
deriving DecidableEq, Repr

structure VoteResponse where
  term : Term
  voteGranted : Bool
deriving DecidableEq, Repr

structure Heartbeat where
  term : Term
  leaderId : NodeId
deriving DecidableEq, Repr

structure HeartbeatResponse where
  term : Term
  success : Bool
deriving DecidableEq, Repr

/-- Persistent and volatile state in one record. -/
structure RaftNode where
  config : RaftConfig
  currentTerm : Term
  votedFor : Option NodeId
  state : NodeState
  leaderId : Option NodeId
  votesReceived : AList (fun _ : NodeId => Bool)
deriving DecidableEq

namespace RaftNode

def new (config : RaftConfig) : RaftNode :=
  { config, currentTerm := 0, votedFor := none, state := .follower, leaderId := none,
    votesReceived := ∅ }

def leader (n : RaftNode) : Option NodeId := n.leaderId

def isLeader (n : RaftNode) : Bool := n.state == .leader

def incrementTerm (n : RaftNode) : RaftNode := { n with currentTerm := n.currentTerm + 1 }

def recordVote (nodeId : NodeId) (granted : Bool) (n : RaftNode) : RaftNode :=
  { n with votesReceived := n.votesReceived.insert nodeId granted }

def countVotes (n : RaftNode) : Nat := (n.votesReceived.entries.filter (fun v => v.2)).length

def clearVotes (n : RaftNode) : RaftNode := { n with votesReceived := ∅ }

def becomeLeader (n : RaftNode) : RaftNode :=
  { n with state := .leader, leaderId := some n.config.nodeId }

end RaftNode

def RaftConfig.votesNeeded (config : RaftConfig) : Nat := (config.clusterNodes.length + 1) / 2 + 1

namespace RaftNode

def startElection (n : RaftNode) : RaftNode :=
  let n := { n with state := .candidate }
  let n := n.incrementTerm
  let n := { n with votedFor := some n.config.nodeId }
  let n := n.clearVotes.recordVote n.config.nodeId true
  -- a cluster of one node is won at once
  if n.config.votesNeeded ≤ n.countVotes then n.becomeLeader else n

def handleVoteRequest (request : VoteRequest) (n : RaftNode) : VoteResponse × RaftNode :=
  let currentTerm := n.currentTerm
  if request.term < currentTerm then ({ term := currentTerm, voteGranted := false }, n)
  else
    let n :=
      if currentTerm < request.term then
        { n with
          currentTerm := request.term
          votedFor := none
          state := .follower
          leaderId := none }
      else n
    if n.votedFor = none ∨ n.votedFor = some request.candidateId then
      ({ term := request.term, voteGranted := true },
        { n with votedFor := some request.candidateId })
    else ({ term := currentTerm, voteGranted := false }, n)

def handleHeartbeat (heartbeat : Heartbeat) (n : RaftNode) : HeartbeatResponse × RaftNode :=
  let currentTerm := n.currentTerm
  if heartbeat.term < currentTerm then ({ term := currentTerm, success := false }, n)
  else
    let n :=
      if currentTerm < heartbeat.term then
        { n with currentTerm := heartbeat.term, votedFor := none }
      else n
    let n := if n.state = .candidate then { n with state := .follower } else n
    ({ term := heartbeat.term, success := true }, { n with leaderId := some heartbeat.leaderId })

/-! ## What the handlers do -/

/-- A node wins at once iff it has no peers. -/
theorem votesNeeded_le_one_iff (config : RaftConfig) :
    config.votesNeeded ≤ 1 ↔ config.clusterNodes = [] := by
  rw [RaftConfig.votesNeeded, ← List.length_eq_zero_iff]
  omega

theorem startElection_eq (n : RaftNode) :
    n.startElection =
      { n with
        currentTerm := n.currentTerm + 1
        votedFor := some n.config.nodeId
        state := if n.config.clusterNodes = [] then .leader else .candidate
        leaderId := if n.config.clusterNodes = [] then some n.config.nodeId else n.leaderId
        votesReceived := (∅ : AList (fun _ : NodeId => Bool)).insert n.config.nodeId true } := by
  -- the node's own vote is the only one
  have hvotes : ((n.clearVotes.recordVote n.config.nodeId true).countVotes) = 1 := rfl
  by_cases hpeers : n.config.clusterNodes = []
  · have hneeded := (votesNeeded_le_one_iff n.config).mpr hpeers
    simp only [hpeers, if_true]
    exact if_pos (hvotes ▸ hneeded)
  · have hneeded := mt (votesNeeded_le_one_iff n.config).mp hpeers
    simp only [hpeers, if_false]
    exact if_neg (hvotes ▸ hneeded)

/-- A vote request is stale, of a higher term, granted in the present term, or
denied in it. -/
theorem handleVoteRequest_cases (request : VoteRequest) (n : RaftNode) :
    (request.term < n.currentTerm ∧
      n.handleVoteRequest request = ({ term := n.currentTerm, voteGranted := false }, n)) ∨
    (n.currentTerm < request.term ∧
      n.handleVoteRequest request = ({ term := request.term, voteGranted := true },
        { n with
          currentTerm := request.term
          votedFor := some request.candidateId
          state := .follower
          leaderId := none })) ∨
    (request.term = n.currentTerm ∧
      (n.votedFor = none ∨ n.votedFor = some request.candidateId) ∧
      n.handleVoteRequest request = ({ term := request.term, voteGranted := true },
        { n with votedFor := some request.candidateId })) ∨
    (request.term = n.currentTerm ∧
      n.handleVoteRequest request = ({ term := n.currentTerm, voteGranted := false }, n)) := by
  simp only [handleVoteRequest]
  by_cases hstale : request.term < n.currentTerm
  · exact Or.inl ⟨hstale, if_pos hstale⟩
  right
  simp only [if_neg hstale]
  by_cases hhigher : n.currentTerm < request.term
  · exact Or.inl ⟨hhigher, by simp only [if_pos hhigher, true_or, if_true]⟩
  right
  have hterm : request.term = n.currentTerm :=
    UInt64.le_antisymm (UInt64.not_lt.mp hhigher) (UInt64.not_lt.mp hstale)
  simp only [if_neg hhigher]
  by_cases hvote : n.votedFor = none ∨ n.votedFor = some request.candidateId
  · exact Or.inl ⟨hterm, hvote, if_pos hvote⟩
  · exact Or.inr ⟨hterm, if_neg hvote⟩

/-- A heartbeat is stale or accepted. -/
theorem handleHeartbeat_cases (heartbeat : Heartbeat) (n : RaftNode) :
    (heartbeat.term < n.currentTerm ∧
      n.handleHeartbeat heartbeat = ({ term := n.currentTerm, success := false }, n)) ∨
    (n.currentTerm ≤ heartbeat.term ∧
      n.handleHeartbeat heartbeat = ({ term := heartbeat.term, success := true },
        { n with
          currentTerm := heartbeat.term
          votedFor := if n.currentTerm < heartbeat.term then none else n.votedFor
          state := if n.state = .candidate then .follower else n.state
          leaderId := some heartbeat.leaderId })) := by
  simp only [handleHeartbeat]
  by_cases hstale : heartbeat.term < n.currentTerm
  · exact Or.inl ⟨hstale, if_pos hstale⟩
  refine Or.inr ⟨UInt64.not_lt.mp hstale, ?_⟩
  simp only [if_neg hstale]
  by_cases hcandidate : n.state = .candidate
  · by_cases hhigher : n.currentTerm < heartbeat.term
    · simp only [if_pos hhigher, if_pos hcandidate]
    · have hterm : heartbeat.term = n.currentTerm :=
        UInt64.le_antisymm (UInt64.not_lt.mp hhigher) (UInt64.not_lt.mp hstale)
      simp only [if_neg hhigher, if_pos hcandidate]
      simp only [hterm]
  · by_cases hhigher : n.currentTerm < heartbeat.term
    · simp only [if_pos hhigher, if_neg hcandidate]
    · have hterm : heartbeat.term = n.currentTerm :=
        UInt64.le_antisymm (UInt64.not_lt.mp hhigher) (UInt64.not_lt.mp hstale)
      simp only [if_neg hhigher, if_neg hcandidate]
      simp only [hterm]

end RaftNode

/-! ## Terms -/

/-- `u64::MAX`. -/
def maxTerm : Term := 0xFFFFFFFFFFFFFFFF

theorem lt_add_one_of_ne {t : Term} (h : t ≠ maxTerm) : t < t + 1 := by
  simp only [maxTerm] at h
  grind

theorem maxTerm_add_one : maxTerm + 1 = 0 := rfl

/-! ## Events -/

/-- A call of one of the three handlers. -/
inductive Event where
  | startElection
  | voteRequest (request : VoteRequest)
  | heartbeat (heartbeat : Heartbeat)
deriving DecidableEq, Repr

def RaftNode.handle (n : RaftNode) : Event → RaftNode
  | .startElection => n.startElection
  | .voteRequest request => (n.handleVoteRequest request).2
  | .heartbeat heartbeat => (n.handleHeartbeat heartbeat).2

end Dolda.Raft
