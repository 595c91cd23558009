/-
# `Dolda.Raft.Leadership` — what a node takes for its leader and its term

One node under any calls of its handlers.  `Life` is the node together with the
heartbeats it accepted and the terms whose elections it won.

    a leader was elected in its present term     iff no heartbeat of that term or a
                                                 later one, its own apart, reaches a
                                                 leader            (`leader_elected_iff`)
    the leader reported leads the present term   iff no election is started that
                                                 leaves a known leader standing
                                                                   (`leader_current_iff`)
    terms do not decrease                        iff no election is started at the
                                                 last term         (`terms_grow_iff`)

Each is a statement about whole runs, and each condition is one on the state
before a step.  Last come messages that are late or doubled: what a node answers
always carries the higher of the two terms, and a message that comes again at once
changes nothing (`message_settles`).
-/
import Dolda.Lib.Lts
import Dolda.Raft.Node

namespace Dolda.Raft

structure Life where
  node : RaftNode
  heard : List Heartbeat
  won : List Term

/-- The heartbeat of a call, if it is accepted. -/
def RaftNode.accepted (n : RaftNode) : Event → List Heartbeat
  | .heartbeat heartbeat => if (n.handleHeartbeat heartbeat).1.success then [heartbeat] else []
  | _ => []

/-- The term of an election, if the call starts and wins one. -/
def RaftNode.elected (n : RaftNode) : Event → List Term
  | .startElection => if n.startElection.isLeader then [n.startElection.currentTerm] else []
  | _ => []

namespace Life

def start (config : RaftConfig) : Life := { node := RaftNode.new config, heard := [], won := [] }

def next (l : Life) (event : Event) : Life :=
  { node := l.node.handle event
    heard := l.heard ++ l.node.accepted event
    won := l.won ++ l.node.elected event }

def step (l : Life) (event : Event) : Option Life := some (l.next event)

/-! ## Leaders

A leader was elected if it has its own vote and won the election of its present term.
Elections and vote requests keep that: the first begin a new term as a candidate, and
the second make a follower of a leader where the term is higher.  A heartbeat leaves a
leader what it is; if it is not stale it moves the term and the leader that is known,
and that is the one step that breaks it. -/

/-- A leader was elected in its present term. -/
def Elected (l : Life) : Prop :=
  l.node.state = .leader → l.node.leaderId = some l.node.config.nodeId ∧
    l.node.votedFor = some l.node.config.nodeId ∧ l.node.currentTerm ∈ l.won

/-- A heartbeat that reaches a leader is stale, or is its own. -/
def Undisturbed (l : Life) : Event → Prop
  | .heartbeat heartbeat => l.node.state = .leader →
      heartbeat.term < l.node.currentTerm ∨
        heartbeat = { term := l.node.currentTerm, leaderId := l.node.config.nodeId }
  | _ => True

/-- A leader that is told of a higher term is no longer one. -/
def StepsDown (l : Life) : Event → Prop
  | .startElection => True
  | .voteRequest request => l.node.state = .leader → l.node.currentTerm < request.term →
      (l.next (.voteRequest request)).node.state ≠ .leader
  | .heartbeat heartbeat => l.node.state = .leader → l.node.currentTerm < heartbeat.term →
      (l.next (.heartbeat heartbeat)).node.state ≠ .leader

section
variable {l : Life}

theorem elected_startElection (l : Life) : (l.next .startElection).Elected := by
  simp only [Elected, next, RaftNode.handle, RaftNode.elected, RaftNode.isLeader,
    RaftNode.startElection_eq]
  intro hleader
  by_cases hpeers : l.node.config.clusterNodes = []
  · simp only [if_pos hpeers, beq_self_eq_true, if_true, true_and]
    exact List.mem_append_right _ (List.mem_singleton.mpr rfl)
  · rw [if_neg hpeers] at hleader
    cases hleader

theorem Elected.voteRequest (h : l.Elected) (request : VoteRequest) :
    (l.next (.voteRequest request)).Elected := by
  simp only [Elected, next, RaftNode.handle, RaftNode.elected, List.append_nil]
  rcases l.node.handleVoteRequest_cases request with
    ⟨-, heq⟩ | ⟨-, heq⟩ | ⟨-, hvote, heq⟩ | ⟨-, heq⟩
  · rw [heq]
    exact h
  · rw [heq]
    intro hleader
    cases hleader
  · rw [heq]
    intro hleader
    obtain ⟨hself, hvoted, hwon⟩ := h hleader
    -- a leader has voted for itself, so it grants its vote to no one else
    rw [hvoted] at hvote
    exact ⟨hself, (hvote.resolve_left (Option.some_ne_none _)).symm, hwon⟩
  · rw [heq]
    exact h

theorem Elected.heartbeat_iff (h : l.Elected) (heartbeat : Heartbeat) :
    (l.next (.heartbeat heartbeat)).Elected ↔ l.Undisturbed (.heartbeat heartbeat) := by
  simp only [Elected, Undisturbed, next, RaftNode.handle, RaftNode.elected, List.append_nil]
  rcases l.node.handleHeartbeat_cases heartbeat with ⟨hstale, heq⟩ | ⟨hle, heq⟩
  · rw [heq]
    exact iff_of_true h (fun _ => Or.inl hstale)
  rw [heq]
  by_cases hleader : l.node.state = .leader
  · obtain ⟨-, hvoted, hwon⟩ := h hleader
    have hstay : (if NodeState.leader = .candidate then .follower else .leader)
        = NodeState.leader := rfl
    simp only [hleader, hstay, true_imp_iff, Option.some.injEq]
    constructor
    · rintro ⟨hself, hvoted', -⟩
      -- the vote is still on record, so the term is the same
      have hsame : ¬ l.node.currentTerm < heartbeat.term := by
        intro hhigher
        rw [if_pos hhigher] at hvoted'
        cases hvoted'
      have hterm := UInt64.le_antisymm (UInt64.not_lt.mp hsame) hle
      exact Or.inr (by cases heartbeat; simp only [Heartbeat.mk.injEq]; exact ⟨hterm, hself⟩)
    · rintro (hlt | rfl)
      · exact absurd hlt (UInt64.not_lt.mpr hle)
      · exact ⟨rfl, by rw [if_neg (UInt64.lt_irrefl _), hvoted], hwon⟩
  · refine iff_of_true (fun hstill => absurd hstill ?_) (fun hl => absurd hl hleader)
    dsimp only
    split
    · intro hl
      cases hl
    · exact hleader

/-- **A step keeps a leader elected** iff it is undisturbed. -/
theorem Elected.next_iff (h : l.Elected) (event : Event) :
    (l.next event).Elected ↔ l.Undisturbed event := by
  cases event with
  | startElection => exact iff_of_true (elected_startElection l) trivial
  | voteRequest request => exact iff_of_true (h.voteRequest request) trivial
  | heartbeat heartbeat => exact h.heartbeat_iff heartbeat

theorem Undisturbed.stepsDown {event : Event} (h : l.Undisturbed event) :
    l.StepsDown event := by
  cases event with
  | startElection => trivial
  | voteRequest request =>
      intro _ hhigher
      simp only [next, RaftNode.handle]
      rcases l.node.handleVoteRequest_cases request with
        ⟨hstale, -⟩ | ⟨-, heq⟩ | ⟨hsame, -, -⟩ | ⟨hsame, -⟩
      · exact absurd hhigher (UInt64.not_lt.mpr (UInt64.le_of_lt hstale))
      · rw [heq]
        intro hl
        cases hl
      · exact absurd hhigher (hsame ▸ UInt64.lt_irrefl _)
      · exact absurd hhigher (hsame ▸ UInt64.lt_irrefl _)
  | heartbeat heartbeat =>
      intro hleader hhigher
      rcases h hleader with hstale | rfl
      · exact absurd hhigher (UInt64.not_lt.mpr (UInt64.le_of_lt hstale))
      · exact absurd hhigher (UInt64.lt_irrefl _)

end

end Life

/-- **Leaders are elected.**  In every run of a node, the states in which it is
leader are all ones in which it was elected in its present term, and a higher term
always takes the lead from it, iff no heartbeat of the present term or a later one,
other than its own, reaches it while it is leader. -/
theorem leader_elected_iff (config : RaftConfig) (events : List Event) :
    (Lts.Always Life.step Life.Elected (.start config) events ∧
      Lts.Guarded Life.step Life.StepsDown (.start config) events) ↔
    Lts.Guarded Life.step Life.Undisturbed (.start config) events := by
  have hiff : Lts.Always Life.step Life.Elected (.start config) events ↔
      Lts.Guarded Life.step Life.Undisturbed (.start config) events :=
    Lts.always_iff_of_next (fun h => h.next_iff _) nofun
  rw [hiff]
  exact and_iff_left_of_imp (fun h => h.imp (fun h => h.stepsDown))

/-- **A deposed leader stays leader**: a node without peers wins the election of
term 1, and a heartbeat of term 2 leaves it leader, of a term it has not voted in
and with another node for its leader. -/
theorem leader_after_heartbeat : ∃ l,
    Lts.run Life.step (.start .default) [.startElection, .heartbeat { term := 2, leaderId := 9 }]
      = some l ∧
    l.node.state = .leader ∧ l.node.currentTerm = 2 ∧ l.node.leaderId = some 9 ∧
    l.node.votedFor = none :=
  ⟨_, rfl, rfl, rfl, rfl, rfl⟩

/-! ## Known leaders -/

namespace Life

/-- The node accepted a heartbeat of the leader in the term, or is the leader and
won the election of the term. -/
def Known (l : Life) (term : Term) (leader : NodeId) : Prop :=
  { term, leaderId := leader } ∈ l.heard ∨ leader = l.node.config.nodeId ∧ term ∈ l.won

/-- The leader reported leads the present term. -/
def LeaderCurrent (l : Life) : Prop :=
  ∀ leader, l.node.leader = some leader → l.Known l.node.currentTerm leader

/-- An election is started without peers, with no leader known, or with a leader
that is known in the next term already. -/
def Replaced (l : Life) : Event → Prop
  | .startElection => l.node.config.clusterNodes = [] ∨
      ∀ leader, l.node.leader = some leader → l.Known (l.node.currentTerm + 1) leader
  | _ => True

section
variable {l : Life}

theorem startElection_current_iff (l : Life) :
    (l.next .startElection).LeaderCurrent ↔ l.Replaced .startElection := by
  simp only [LeaderCurrent, Known, Replaced, next, RaftNode.handle, RaftNode.leader,
    RaftNode.accepted, RaftNode.elected, RaftNode.isLeader, RaftNode.startElection_eq,
    List.append_nil]
  by_cases hpeers : l.node.config.clusterNodes = []
  · simp only [beq_self_eq_true, if_true, hpeers, true_or, iff_true]
    rintro leader hself
    cases hself
    exact Or.inr ⟨rfl, List.mem_append_right _ (List.mem_singleton.mpr rfl)⟩
  · -- the election is left open, and the leader known stands
    have hopen : (NodeState.candidate == NodeState.leader) = false := rfl
    simp only [hpeers, hopen, Bool.false_eq_true, if_false, List.append_nil,
      false_or]

theorem LeaderCurrent.voteRequest (h : l.LeaderCurrent) (request : VoteRequest) :
    (l.next (.voteRequest request)).LeaderCurrent := by
  simp only [LeaderCurrent, Known, next, RaftNode.handle, RaftNode.leader, RaftNode.accepted,
    RaftNode.elected, List.append_nil]
  rcases l.node.handleVoteRequest_cases request with
    ⟨-, heq⟩ | ⟨-, heq⟩ | ⟨-, -, heq⟩ | ⟨-, heq⟩
  · rw [heq]
    exact h
  · rw [heq]
    intro leader hleader
    cases hleader
  · rw [heq]
    exact h
  · rw [heq]
    exact h

theorem LeaderCurrent.heartbeat (h : l.LeaderCurrent) (heartbeat : Heartbeat) :
    (l.next (.heartbeat heartbeat)).LeaderCurrent := by
  simp only [LeaderCurrent, Known, next, RaftNode.handle, RaftNode.leader, RaftNode.accepted,
    RaftNode.elected, List.append_nil]
  rcases l.node.handleHeartbeat_cases heartbeat with ⟨-, heq⟩ | ⟨-, heq⟩
  · rw [heq, if_neg Bool.false_ne_true, List.append_nil]
    exact h
  · rw [heq, if_pos rfl]
    intro leader hleader
    cases hleader
    exact Or.inl (List.mem_append_right _ (List.mem_singleton.mpr rfl))

/-- **A step keeps the leader current** iff an election that is left open leaves
none standing. -/
theorem LeaderCurrent.next_iff (h : l.LeaderCurrent) (event : Event) :
    (l.next event).LeaderCurrent ↔ l.Replaced event := by
  cases event with
  | startElection => exact startElection_current_iff l
  | voteRequest request => exact iff_of_true (h.voteRequest request) trivial
  | heartbeat heartbeat => exact iff_of_true (h.heartbeat heartbeat) trivial

end

end Life

/-- **Known leaders are current.**  In every run of a node, the leader reported
leads the present term in every state iff each election is started without peers,
with no leader known, or with a leader known in the next term already. -/
theorem leader_current_iff (config : RaftConfig) (events : List Event) :
    Lts.Always Life.step Life.LeaderCurrent (.start config) events ↔
      Lts.Guarded Life.step Life.Replaced (.start config) events :=
  Lts.always_iff_of_next (fun h => h.next_iff _) nofun

/-- **A stale leader is reported**: a node with peers hears the leader of term 1,
starts the election of term 2, and still reports that leader, of whom it heard in
term 1 only. -/
theorem stale_leader_reported : ∃ l,
    Lts.run Life.step (.start { nodeId := 1, clusterNodes := [1, 2, 3] })
      [.heartbeat { term := 1, leaderId := 2 }, .startElection] = some l ∧
    l.node.leader = some 2 ∧ l.node.currentTerm = 2 ∧
    l.heard = [{ term := 1, leaderId := 2 }] ∧ l.won = [] :=
  ⟨_, rfl, rfl, rfl, rfl, rfl⟩

/-! ## Terms -/

/-- One call of a handler. -/
def RaftNode.step (n : RaftNode) (event : Event) : Option RaftNode := some (n.handle event)

/-- An election at the last term wraps the counter; no other call takes the term
back. -/
theorem RaftNode.term_le_handle_iff (n : RaftNode) (event : Event) :
    n.currentTerm ≤ (n.handle event).currentTerm ↔
      (event = .startElection → n.currentTerm ≠ maxTerm) := by
  cases event with
  | startElection =>
      simp only [handle, startElection_eq, true_imp_iff]
      constructor
      · intro hle hmax
        rw [hmax, maxTerm_add_one] at hle
        exact absurd hle (by decide)
      · intro hne
        exact UInt64.le_of_lt (lt_add_one_of_ne hne)
  | voteRequest request =>
      refine iff_of_true ?_ (fun h => by cases h)
      rw [handle]
      rcases n.handleVoteRequest_cases request with
        ⟨-, heq⟩ | ⟨hhigher, heq⟩ | ⟨-, -, heq⟩ | ⟨-, heq⟩
      · rw [heq]
        exact UInt64.le_refl _
      · rw [heq]
        exact UInt64.le_of_lt hhigher
      · rw [heq]
        exact UInt64.le_refl _
      · rw [heq]
        exact UInt64.le_refl _
  | heartbeat heartbeat =>
      refine iff_of_true ?_ (fun h => by cases h)
      rw [handle]
      rcases n.handleHeartbeat_cases heartbeat with ⟨-, heq⟩ | ⟨hle, heq⟩
      · rw [heq]
        exact UInt64.le_refl _
      · rw [heq]
        exact hle

/-- **Terms grow.**  In every run of any node no step takes the term back iff no
election is started at the last term. -/
theorem terms_grow_iff (n : RaftNode) (events : List Event) :
    Lts.Guarded RaftNode.step (fun n event => n.currentTerm ≤ (n.handle event).currentTerm) n
        events ↔
      Lts.Guarded RaftNode.step (fun n event => event = .startElection → n.currentTerm ≠ maxTerm)
        n events :=
  Lts.guarded_congr RaftNode.term_le_handle_iff

/-- **The term starts again at 0**: a heartbeat may carry the last term, and the
election after it wraps the counter. -/
theorem term_wraps : ∃ n n',
    Lts.run RaftNode.step (.new .default) [.heartbeat { term := maxTerm, leaderId := 9 }] = some n ∧
    n.currentTerm = maxTerm ∧ n.step .startElection = some n' ∧ n'.currentTerm = 0 :=
  ⟨_, _, rfl, rfl, rfl, rfl⟩

/-! ## Messages that are late or doubled

A candidate that has the vote of the term gets it again, and a leader that is known is
heard again. -/

namespace RaftNode
variable {n : RaftNode}

theorem max_of_le {t u : Term} (h : t ≤ u) : max t u = u := if_pos h

theorem max_of_gt {t u : Term} (h : u < t) : max t u = t := if_neg (UInt64.not_le.mpr h)

theorem handleVoteRequest_voted {request : VoteRequest} (hterm : request.term = n.currentTerm)
    (hvoted : n.votedFor = some request.candidateId) :
    n.handleVoteRequest request = ({ term := request.term, voteGranted := true }, n) := by
  have hnot : ¬ n.currentTerm < n.currentTerm := UInt64.lt_irrefl _
  simp only [handleVoteRequest, hterm, if_neg hnot, hvoted, or_true, if_true]
  rw [← hvoted]

theorem handleHeartbeat_heard {heartbeat : Heartbeat} (hterm : heartbeat.term = n.currentTerm)
    (hstate : n.state ≠ .candidate) (hleader : n.leaderId = some heartbeat.leaderId) :
    n.handleHeartbeat heartbeat = ({ term := heartbeat.term, success := true }, n) := by
  have hnot : ¬ n.currentTerm < n.currentTerm := UInt64.lt_irrefl _
  simp only [handleHeartbeat, hterm, if_neg hnot, if_neg hstate]
  rw [← hleader]

theorem handleVoteRequest_term (request : VoteRequest) (n : RaftNode) :
    (n.handleVoteRequest request).2.currentTerm = max n.currentTerm request.term ∧
      (n.handleVoteRequest request).1.term = max n.currentTerm request.term := by
  rcases n.handleVoteRequest_cases request with
    ⟨hstale, heq⟩ | ⟨hhigher, heq⟩ | ⟨hsame, -, heq⟩ | ⟨hsame, heq⟩
  · rw [heq, max_of_gt hstale]
    exact ⟨rfl, rfl⟩
  · rw [heq, max_of_le (UInt64.le_of_lt hhigher)]
    exact ⟨rfl, rfl⟩
  · rw [heq, hsame, max_of_le (UInt64.le_refl _)]
    exact ⟨rfl, rfl⟩
  · rw [heq, hsame, max_of_le (UInt64.le_refl _)]
    exact ⟨rfl, rfl⟩

theorem handleVoteRequest_again (request : VoteRequest) (n : RaftNode) :
    (n.handleVoteRequest request).2.handleVoteRequest request = n.handleVoteRequest request := by
  rcases n.handleVoteRequest_cases request with
    ⟨-, heq⟩ | ⟨-, heq⟩ | ⟨hsame, -, heq⟩ | ⟨-, heq⟩
  · rw [heq]
    exact heq
  · rw [heq]
    exact handleVoteRequest_voted rfl rfl
  · rw [heq]
    exact handleVoteRequest_voted hsame rfl
  · rw [heq]
    exact heq

theorem handleHeartbeat_term (heartbeat : Heartbeat) (n : RaftNode) :
    (n.handleHeartbeat heartbeat).2.currentTerm = max n.currentTerm heartbeat.term ∧
      (n.handleHeartbeat heartbeat).1.term = max n.currentTerm heartbeat.term := by
  rcases n.handleHeartbeat_cases heartbeat with ⟨hstale, heq⟩ | ⟨hle, heq⟩
  · rw [heq, max_of_gt hstale]
    exact ⟨rfl, rfl⟩
  · rw [heq, max_of_le hle]
    exact ⟨rfl, rfl⟩

theorem handleHeartbeat_again (heartbeat : Heartbeat) (n : RaftNode) :
    (n.handleHeartbeat heartbeat).2.handleHeartbeat heartbeat = n.handleHeartbeat heartbeat := by
  rcases n.handleHeartbeat_cases heartbeat with ⟨-, heq⟩ | ⟨-, heq⟩
  · rw [heq]
    exact heq
  · rw [heq]
    refine handleHeartbeat_heard rfl ?_ rfl
    dsimp only
    split
    · intro hcandidate
      cases hcandidate
    · assumption

/-- **A message settles a node.**  After a vote request or a heartbeat the term is the
higher of the node's and the message's, and the answer carries it; a message of a lower
term is refused and changes nothing; and the same message again changes nothing and gets
the same answer. -/
theorem message_settles (n : RaftNode) :
    (∀ request : VoteRequest,
      (n.handleVoteRequest request).2.currentTerm = max n.currentTerm request.term ∧
      (n.handleVoteRequest request).1.term = max n.currentTerm request.term ∧
      (request.term < n.currentTerm → (n.handleVoteRequest request).2 = n ∧
        (n.handleVoteRequest request).1.voteGranted = false) ∧
      (n.handleVoteRequest request).2.handleVoteRequest request = n.handleVoteRequest request) ∧
    ∀ heartbeat : Heartbeat,
      (n.handleHeartbeat heartbeat).2.currentTerm = max n.currentTerm heartbeat.term ∧
      (n.handleHeartbeat heartbeat).1.term = max n.currentTerm heartbeat.term ∧
      (heartbeat.term < n.currentTerm → (n.handleHeartbeat heartbeat).2 = n ∧
        (n.handleHeartbeat heartbeat).1.success = false) ∧
      (n.handleHeartbeat heartbeat).2.handleHeartbeat heartbeat = n.handleHeartbeat heartbeat := by
  constructor
  · intro request
    obtain ⟨hterm, hanswer⟩ := handleVoteRequest_term request n
    refine ⟨hterm, hanswer, ?_, handleVoteRequest_again request n⟩
    intro hstale
    simp only [handleVoteRequest, if_pos hstale, true_and]
  · intro heartbeat
    obtain ⟨hterm, hanswer⟩ := handleHeartbeat_term heartbeat n
    refine ⟨hterm, hanswer, ?_, handleHeartbeat_again heartbeat n⟩
    intro hstale
    simp only [handleHeartbeat, if_pos hstale, true_and]

end RaftNode

end Dolda.Raft
