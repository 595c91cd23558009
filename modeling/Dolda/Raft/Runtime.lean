/-
# `Dolda.Raft.Runtime` — a node as it runs

`run` of `src/raft.rs`: a loop that takes commands from a channel, and beside it two
timers that put them in.  All three share the node, and a command is carried out write by
write (`Piece`), so a timer may read the node in the middle of an election.

However the three are interleaved, once a command has been carried out the node is what
the handlers make of the commands taken, in their order (`runtime_refines_handlers`).
The channel is private and only the timers put commands in it: so all a node ever does is
start elections, with the shortest election timeout between them (`elections_rate`).  A
node without peers wins each (`alone_leads`); one that has peers never leads, and never
learns of a leader (`peers_never_lead`).

Times are in milliseconds, since the node was made.  A request is handled in one piece
here, and to whom it is answered is left out: nobody sends one.
-/
import Dolda.Lib.Loop
import Dolda.Lib.Lts
import Dolda.Raft.Node
import Mathlib.Data.List.Induction

namespace Dolda.Raft

/-- The durations of the configuration. -/
structure Timing where
  electionTimeoutMin : Nat
  electionTimeoutMax : Nat
  heartbeatInterval : Nat
deriving DecidableEq, Repr

def Timing.default : Timing :=
  { electionTimeoutMin := 150, electionTimeoutMax := 300, heartbeatInterval := 50 }

inductive RaftCommand where
  | handleVoteRequest (request : VoteRequest)
  | handleHeartbeat (heartbeat : Heartbeat)
  | startElection
  | sendHeartbeats
deriving DecidableEq, Repr

/-! ## Commands write by write -/

/-- What the loop does next. -/
inductive Piece where
  | setState (state : NodeState)
  | incrementTerm
  | setVotedFor
  | clearVotes
  | recordVote
  | updateHeartbeat
  | countVotes
  | setLeader
  | handleVoteRequest (request : VoteRequest)
  | handleHeartbeat (heartbeat : Heartbeat)
deriving DecidableEq, Repr

/-- `start_election` up to the votes. -/
def electionPieces : List Piece :=
  [.setState .candidate, .incrementTerm, .setVotedFor, .clearVotes, .recordVote, .updateHeartbeat,
    .countVotes]

/-- `become_leader`. -/
def leaderPieces : List Piece := [.setState .leader, .setLeader]

def RaftCommand.pieces : RaftCommand → List Piece
  | .handleVoteRequest request => [.handleVoteRequest request]
  | .handleHeartbeat heartbeat => [.handleHeartbeat heartbeat]
  | .startElection => electionPieces
  | .sendHeartbeats => []

/-- A piece writes to the node; counting the votes may have the leader's pieces follow. -/
def Piece.run (n : RaftNode) : Piece → RaftNode × List Piece
  | .setState state => ({ n with state }, [])
  | .incrementTerm => (n.incrementTerm, [])
  | .setVotedFor => ({ n with votedFor := some n.config.nodeId }, [])
  | .clearVotes => (n.clearVotes, [])
  | .recordVote => (n.recordVote n.config.nodeId true, [])
  | .updateHeartbeat => (n, [])
  | .countVotes => (n, if n.config.votesNeeded ≤ n.countVotes then leaderPieces else [])
  | .setLeader => ({ n with leaderId := some n.config.nodeId }, [])
  | .handleVoteRequest request => ((n.handleVoteRequest request).2, [])
  | .handleHeartbeat heartbeat => ((n.handleHeartbeat heartbeat).2, [])

/-- Whether a piece takes the time as that of the last heartbeat. -/
def Piece.updates (n : RaftNode) : Piece → Bool
  | .updateHeartbeat => true
  | .handleVoteRequest request => (n.handleVoteRequest request).1.voteGranted
  | .handleHeartbeat heartbeat => (n.handleHeartbeat heartbeat).1.success
  | .setState _ | .incrementTerm | .setVotedFor | .clearVotes | .recordVote | .countVotes
  | .setLeader => false

/-! ## The three tasks -/

/-- Where the election timer is. -/
inductive ElectionTimer where
  | drawing
  | sleeping (deadline : Nat)
  | notLeading
  | sending
deriving DecidableEq, Repr

inductive HeartbeatTimer where
  | resting
  | sleeping (deadline : Nat)
  | sending
deriving DecidableEq, Repr

structure Runtime where
  now : Nat
  node : RaftNode
  lastHeartbeat : Nat
  commands : List RaftCommand
  /-- What is left of the command in hand. -/
  pieces : List Piece
  electionTimer : ElectionTimer
  heartbeatTimer : HeartbeatTimer
  /-- The commands taken so far. -/
  taken : List RaftCommand

/-- A label: time passes, or one of the three tasks takes its next step.  The election
timer brings along the timeout it draws. -/
inductive Turn where
  | pass (d : Nat)
  | sleep (timeout : Nat)
  | wake
  | compare (timeout : Nat)
  | request
  | rest
  | beat
  | announce
  | next
deriving DecidableEq, Repr

namespace Runtime

def start (config : RaftConfig) : Runtime :=
  { now := 0, node := .new config, lastHeartbeat := 0, commands := [], pieces := []
    electionTimer := .drawing, heartbeatTimer := .resting, taken := [] }

/-- The loop carries out the next piece, or takes the next command. -/
def next (s : Runtime) : Option Runtime :=
  match s.pieces with
  | piece :: pieces =>
      some
        { s with
          node := (piece.run s.node).1
          lastHeartbeat := if piece.updates s.node then s.now else s.lastHeartbeat
          pieces := (piece.run s.node).2 ++ pieces }
  | [] =>
      match s.commands with
      | [] => none
      | command :: commands =>
          some { s with commands, pieces := command.pieces, taken := s.taken ++ [command] }

def step (timing : Timing) (s : Runtime) : Turn → Option Runtime
  | .pass d => some { s with now := s.now + d }
  | .sleep timeout =>
      if s.electionTimer = .drawing ∧ timing.electionTimeoutMin ≤ timeout ∧
          timeout ≤ timing.electionTimeoutMax then
        some { s with electionTimer := .sleeping (s.now + timeout) }
      else none
  | .wake =>
      match s.electionTimer with
      | .sleeping deadline =>
          if deadline ≤ s.now then
            some
              { s with electionTimer := if s.node.state ≠ .leader then .notLeading else .drawing }
          else none
      | _ => none
  | .compare timeout =>
      if s.electionTimer = .notLeading ∧ timing.electionTimeoutMin ≤ timeout ∧
          timeout ≤ timing.electionTimeoutMax then
        some
          { s with
            electionTimer := if timeout ≤ s.now - s.lastHeartbeat then .sending else .drawing }
      else none
  | .request =>
      if s.electionTimer = .sending then
        some { s with electionTimer := .drawing, commands := s.commands ++ [.startElection] }
      else none
  | .rest =>
      if s.heartbeatTimer = .resting then
        some { s with heartbeatTimer := .sleeping (s.now + timing.heartbeatInterval) }
      else none
  | .beat =>
      match s.heartbeatTimer with
      | .sleeping deadline =>
          if deadline ≤ s.now then
            some { s with heartbeatTimer := if s.node.state = .leader then .sending else .resting }
          else none
      | _ => none
  | .announce =>
      if s.heartbeatTimer = .sending then
        some { s with heartbeatTimer := .resting, commands := s.commands ++ [.sendHeartbeats] }
      else none
  | .next => s.next

end Runtime

/-! ## The commands as events

A command is carried out in pieces, one write each, and the pieces that follow a piece
of an election depend on what it found.  Taken together they are the handler; so what is
in hand leads to what the handlers make of the commands taken. -/

/-- The handler a command calls. -/
def RaftCommand.event : RaftCommand → Option Event
  | .handleVoteRequest request => some (.voteRequest request)
  | .handleHeartbeat heartbeat => some (.heartbeat heartbeat)
  | .startElection => some .startElection
  | .sendHeartbeats => none

/-- The node after a command. -/
def RaftNode.obey (n : RaftNode) (command : RaftCommand) : RaftNode :=
  match command.event with
  | none => n
  | some event => n.handle event

/-- The pieces one after another. -/
def pieceTurn : List Piece × RaftNode → (List Piece × RaftNode) ⊕ RaftNode
  | ([], n) => .inr n
  | (piece :: pieces, n) => .inl ((piece.run n).2 ++ pieces, (piece.run n).1)

theorem pieceTurn_nil (n : RaftNode) : pieceTurn ([], n) = .inr n := rfl

theorem pieceTurn_cons (piece : Piece) (pieces : List Piece) (n : RaftNode) :
    pieceTurn (piece :: pieces, n) = .inl ((piece.run n).2 ++ pieces, (piece.run n).1) := rfl

theorem leaderPieces_return (n : RaftNode) :
    Loop.Returns pieceTurn (leaderPieces, n) n.becomeLeader := ⟨3, rfl⟩

/-- **The pieces of a command** are its handler. -/
theorem RaftCommand.pieces_return (command : RaftCommand) (n : RaftNode) :
    Loop.Returns pieceTurn (command.pieces, n) (n.obey command) := by
  cases command with
  | handleVoteRequest request => exact ⟨2, rfl⟩
  | handleHeartbeat heartbeat => exact ⟨2, rfl⟩
  | sendHeartbeats => exact ⟨1, rfl⟩
  | startElection =>
      let voted : RaftNode :=
        ({ ({ n with state := .candidate } : RaftNode).incrementTerm with
          votedFor := some n.config.nodeId } : RaftNode).clearVotes.recordVote n.config.nodeId true
      have helection : n.obey .startElection =
          if voted.config.votesNeeded ≤ voted.countVotes then voted.becomeLeader else voted := rfl
      have hcounted : Loop.Returns pieceTurn ([.countVotes], voted) (n.obey .startElection) := by
        rw [Loop.returns_inl (pieceTurn_cons .countVotes [] voted), List.append_nil, helection,
          Piece.run]
        split
        · exact leaderPieces_return voted
        · exact ⟨1, rfl⟩
      obtain ⟨k, hk⟩ := hcounted
      exact ⟨k + 6, hk⟩

namespace Runtime

section
variable {timing : Timing} {config : RaftConfig} {s s' : Runtime} {turn : Turn}

/-- Once what is in hand is carried out, the node is what the commands taken make of it. -/
def Follows (config : RaftConfig) (s : Runtime) : Prop :=
  Loop.Returns pieceTurn (s.pieces, s.node) (s.taken.foldl RaftNode.obey (.new config))

/-- **What a turn does**: the loop moves on, or a timer does and may send its command. -/
theorem step_cases (h : s.step timing turn = some s') :
    (turn = .next ∧ s.next = some s') ∨
    (s'.node = s.node ∧ s'.pieces = s.pieces ∧ s'.taken = s.taken ∧
      (s'.commands = s.commands ∨
        s.electionTimer = .sending ∧ s'.commands = s.commands ++ [.startElection] ∨
        s.heartbeatTimer = .sending ∧ s'.commands = s.commands ++ [.sendHeartbeats])) := by
  cases turn with
  | next => exact .inl ⟨rfl, h⟩
  | pass d =>
      cases h
      exact .inr ⟨rfl, rfl, rfl, .inl rfl⟩
  | sleep timeout | compare timeout | rest =>
      simp only [step] at h
      split at h <;> cases h
      exact .inr ⟨rfl, rfl, rfl, .inl rfl⟩
  | wake | beat =>
      simp only [step] at h
      split at h
      · split at h <;> cases h
        exact .inr ⟨rfl, rfl, rfl, .inl rfl⟩
      · cases h
  | request =>
      simp only [step] at h
      split at h
      · rename_i hsending
        cases h
        exact .inr ⟨rfl, rfl, rfl, .inr (.inl ⟨hsending, rfl⟩)⟩
      · cases h
  | announce =>
      simp only [step] at h
      split at h
      · rename_i hsending
        cases h
        exact .inr ⟨rfl, rfl, rfl, .inr (.inr ⟨hsending, rfl⟩)⟩
      · cases h

theorem Follows.next (h : s.Follows config) (hnext : s.next = some s') : s'.Follows config := by
  obtain ⟨now, node, lastHeartbeat, commands, pieces, electionTimer, heartbeatTimer, taken⟩ := s
  cases pieces with
  | cons piece pieces =>
      cases hnext
      exact (Loop.returns_inl (pieceTurn_cons piece pieces node)).mp h
  | nil =>
      cases commands with
      | nil => cases hnext
      | cons command commands =>
          cases hnext
          have hnode : taken.foldl RaftNode.obey (.new config) = node :=
            (Loop.returns_inr (pieceTurn_nil node)).mp h
          rw [Follows, List.foldl_concat, hnode]
          exact command.pieces_return node

theorem Follows.step (h : s.Follows config) (hstep : s.step timing turn = some s') :
    s'.Follows config := by
  rcases step_cases hstep with ⟨-, hnext⟩ | ⟨hnode, hpieces, htaken, -⟩
  · exact h.next hnext
  · rw [Follows, hnode, hpieces, htaken]
    exact h

/-! ## The channel

The loop leaves the timers alone, and what has been in the channel grows at its end
only. -/

/-- Nothing but what the timers send has ever been in the channel or is in hand. -/
structure Private (s : Runtime) : Prop where
  commands : ∀ command ∈ s.taken ++ s.commands,
    command = .startElection ∨ command = .sendHeartbeats
  pieces : ∀ piece ∈ s.pieces, piece ∈ electionPieces ++ leaderPieces

theorem next_frame (h : s.next = some s') :
    s'.now = s.now ∧ s'.electionTimer = s.electionTimer ∧ s'.heartbeatTimer = s.heartbeatTimer ∧
      s'.taken ++ s'.commands = s.taken ++ s.commands := by
  rw [Runtime.next] at h
  split at h
  · cases h
    exact ⟨rfl, rfl, rfl, rfl⟩
  · split at h
    · cases h
    · rename_i hcommands
      cases h
      refine ⟨rfl, rfl, rfl, ?_⟩
      rw [hcommands, List.append_assoc]
      rfl

theorem step_commands (h : s.step timing turn = some s') :
    s'.taken ++ s'.commands = s.taken ++ s.commands ∨
      s.electionTimer = .sending ∧
        s'.taken ++ s'.commands = s.taken ++ s.commands ++ [.startElection] ∨
      s.heartbeatTimer = .sending ∧
        s'.taken ++ s'.commands = s.taken ++ s.commands ++ [.sendHeartbeats] := by
  rcases step_cases h with ⟨-, hnext⟩ | ⟨-, -, htaken, hcommands⟩
  · obtain ⟨-, -, -, hsame⟩ := next_frame hnext
    exact .inl hsame
  · rw [htaken, List.append_assoc, List.append_assoc]
    rcases hcommands with hsame | ⟨hsending, hsent⟩ | ⟨hsending, hsent⟩
    · exact .inl (congrArg _ hsame)
    · exact .inr (.inl ⟨hsending, congrArg _ hsent⟩)
    · exact .inr (.inr ⟨hsending, congrArg _ hsent⟩)

/-- The piece that follows from a piece of an election is one of the leader's. -/
theorem run_pieces {n : RaftNode} {piece next : Piece} (h : next ∈ (piece.run n).2) :
    next ∈ leaderPieces := by
  cases piece with
  | countVotes =>
      rw [Piece.run] at h
      split at h
      · exact h
      · cases h
  | _ => cases h

theorem Private.step (h : s.Private) (hstep : s.step timing turn = some s') : s'.Private := by
  refine ⟨?_, ?_⟩
  · rcases step_commands hstep with hsame | ⟨-, hsent⟩ | ⟨-, hsent⟩
    · rw [hsame]
      exact h.commands
    · rw [hsent]
      exact List.forall_mem_append.mpr ⟨h.commands, List.forall_mem_singleton.mpr (.inl rfl)⟩
    · rw [hsent]
      exact List.forall_mem_append.mpr ⟨h.commands, List.forall_mem_singleton.mpr (.inr rfl)⟩
  · rcases step_cases hstep with ⟨-, hnext⟩ | ⟨-, hpieces, -, -⟩
    · rw [Runtime.next] at hnext
      split at hnext
      · rename_i piece pieces hpieces
        cases hnext
        refine List.forall_mem_append.mpr ⟨?_, ?_⟩
        · exact fun next hnext => List.mem_append_right _ (run_pieces hnext)
        · exact fun next hnext => h.pieces next (hpieces ▸ List.mem_cons_of_mem _ hnext)
      · split at hnext
        · cases hnext
        · rename_i command commands hcommands
          cases hnext
          have hmem : command ∈ s.taken ++ s.commands := by
            rw [hcommands]
            exact List.mem_append_right _ List.mem_cons_self
          rcases h.commands command hmem with rfl | rfl
          · exact fun piece hpiece => List.mem_append_left _ hpiece
          · exact List.forall_mem_nil _
    · rw [hpieces]
      exact h.pieces

/-! ## The pace -/

/-- The elections asked for so far. -/
def requests (s : Runtime) : Nat := (s.taken ++ s.commands).count .startElection

/-- Each of them has had the shortest election timeout, and so has the one that the timer
may be about to ask for. -/
structure Paced (timing : Timing) (s : Runtime) : Prop where
  sent : s.requests * timing.electionTimeoutMin ≤ s.now
  awaited : ∀ deadline, s.electionTimer = .sleeping deadline →
    (s.requests + 1) * timing.electionTimeoutMin ≤ deadline
  due : s.electionTimer = .notLeading ∨ s.electionTimer = .sending →
    (s.requests + 1) * timing.electionTimeoutMin ≤ s.now

theorem Paced.drawing (h : s.requests * timing.electionTimeoutMin ≤ s.now)
    (hdrawing : s.electionTimer = .drawing) : s.Paced timing := by
  refine ⟨h, ?_, ?_⟩
  · intro deadline hsleeping
    cases hdrawing.symm.trans hsleeping
  · rintro (hother | hother) <;> cases hdrawing.symm.trans hother

theorem Paced.step (h : s.Paced timing) (hstep : s.step timing turn = some s') :
    s'.Paced timing := by
  obtain ⟨hsent, hawaited, hdue⟩ := h
  cases turn with
  | pass d =>
      cases hstep
      exact ⟨Nat.le_trans hsent (Nat.le_add_right _ _), hawaited,
        fun hother => Nat.le_trans (hdue hother) (Nat.le_add_right _ _)⟩
  | sleep timeout =>
      simp only [Runtime.step] at hstep
      split at hstep
      · rename_i hdrawn
        cases hstep
        refine ⟨hsent, ?_, ?_⟩
        · intro deadline hsleeping
          cases hsleeping
          have hsum := Nat.add_le_add hsent hdrawn.2.1
          rwa [← Nat.succ_mul] at hsum
        · rintro (hother | hother) <;> cases hother
      · cases hstep
  | wake =>
      simp only [Runtime.step] at hstep
      split at hstep
      · rename_i deadline hsleeping
        split at hstep
        · rename_i hpast
          cases hstep
          refine ⟨hsent, ?_, fun _ => Nat.le_trans (hawaited deadline hsleeping) hpast⟩
          intro deadline' hsleeping'
          dsimp only at hsleeping'
          split at hsleeping' <;> cases hsleeping'
        · cases hstep
      · cases hstep
  | compare timeout =>
      simp only [Runtime.step] at hstep
      split at hstep
      · rename_i hdrawn
        cases hstep
        refine ⟨hsent, ?_, fun _ => hdue (.inl hdrawn.1)⟩
        intro deadline hsleeping
        dsimp only at hsleeping
        split at hsleeping <;> cases hsleeping
      · cases hstep
  | request =>
      simp only [Runtime.step] at hstep
      split at hstep
      · rename_i hsending
        cases hstep
        refine Paced.drawing ?_ rfl
        have hcount : ∀ l : List RaftCommand, (l ++ [RaftCommand.startElection]).count
            RaftCommand.startElection = l.count RaftCommand.startElection + 1 :=
          fun l => by rw [List.count_append]; rfl
        rw [requests, ← List.append_assoc, hcount]
        exact hdue (.inr hsending)
      · cases hstep
  | rest =>
      simp only [Runtime.step] at hstep
      split at hstep <;> cases hstep
      exact ⟨hsent, hawaited, hdue⟩
  | beat =>
      simp only [Runtime.step] at hstep
      split at hstep
      · split at hstep <;> cases hstep
        exact ⟨hsent, hawaited, hdue⟩
      · cases hstep
  | announce =>
      simp only [Runtime.step] at hstep
      split at hstep
      · cases hstep
        have hsame : Runtime.requests
            { s with heartbeatTimer := .resting, commands := s.commands ++ [.sendHeartbeats] } =
            s.requests := by
          rw [requests, ← List.append_assoc, List.count_append]
          rfl
        refine ⟨?_, ?_, ?_⟩ <;> rw [hsame]
        · exact hsent
        · exact hawaited
        · exact hdue
      · cases hstep
  | next =>
      obtain ⟨hnow, htimer, -, hchannel⟩ := next_frame hstep
      have hsame : s'.requests = s.requests := congrArg (List.count RaftCommand.startElection) hchannel
      refine ⟨?_, ?_, ?_⟩ <;> rw [hsame]
      · rwa [hnow]
      · rwa [htimer]
      · rwa [htimer, hnow]

/-! ## Elections

The timers ask for elections and nothing else, so a node between two commands is a new
node that has held so many of them.  With peers it has its own vote at most, which is no
majority; without peers its own vote is one. -/

/-- A new node that has held so many elections and done nothing else. -/
structure Held (config : RaftConfig) (k : Nat) (n : RaftNode) : Prop where
  configured : n.config = config
  term : n.currentTerm = UInt64.ofNat k
  state : n.state =
    if k = 0 then .follower else if config.clusterNodes = [] then .leader else .candidate
  leader : n.leaderId =
    if k = 0 then none else if config.clusterNodes = [] then some config.nodeId else none

theorem Held.election {k : Nat} {n : RaftNode} (h : Held config k n) :
    Held config (k + 1) n.startElection := by
  obtain ⟨hconfig, hterm, -, hleader⟩ := h
  rw [RaftNode.startElection_eq]
  refine ⟨hconfig, ?_, ?_, ?_⟩
  · show n.currentTerm + 1 = _
    rw [hterm, UInt64.ofNat_add]
    rfl
  · show (if n.config.clusterNodes = [] then _ else _) = _
    rw [hconfig, if_neg (Nat.succ_ne_zero k)]
  · show (if n.config.clusterNodes = [] then some n.config.nodeId else n.leaderId) = _
    rw [hconfig, if_neg (Nat.succ_ne_zero k)]
    by_cases hpeers : config.clusterNodes = []
    · rw [if_pos hpeers, if_pos hpeers]
    · rw [if_neg hpeers, if_neg hpeers, hleader]
      simp only [hpeers, if_false, ite_self]

/-- What commands of the timers make of a new node. -/
theorem held_elections (config : RaftConfig) {taken : List RaftCommand}
    (h : ∀ command ∈ taken, command = .startElection ∨ command = .sendHeartbeats) :
    Held config (taken.count .startElection) (taken.foldl RaftNode.obey (.new config)) := by
  induction taken using List.reverseRecOn with
  | nil => exact ⟨rfl, rfl, rfl, rfl⟩
  | append_singleton taken command ih =>
      obtain ⟨htaken, hcommand⟩ := List.forall_mem_append.mp h
      have hheld := ih htaken
      rw [List.foldl_concat, List.count_append]
      rcases List.forall_mem_singleton.mp hcommand with rfl | rfl
      · exact hheld.election
      · exact hheld

/-- A node that does not lead, nor knows who does, and has at most its own vote. -/
structure Unled (config : RaftConfig) (n : RaftNode) : Prop where
  configured : n.config = config
  state : n.state ≠ .leader
  leader : n.leaderId = none
  votes : n.votesReceived = ∅ ∨
    n.votesReceived = (∅ : AList (fun _ : NodeId => Bool)).insert config.nodeId true

theorem Unled.piece {n : RaftNode} {piece : Piece} (hpeers : config.clusterNodes ≠ [])
    (h : Unled config n) (hpiece : piece ∈ electionPieces) :
    Unled config (piece.run n).1 ∧ (piece.run n).2 = [] := by
  obtain ⟨hconfig, hstate, hleader, hvotes⟩ := h
  simp only [electionPieces, List.mem_cons, List.not_mem_nil, or_false] at hpiece
  rcases hpiece with rfl | rfl | rfl | rfl | rfl | rfl | rfl
  · exact ⟨⟨hconfig, NodeState.noConfusion, hleader, hvotes⟩, rfl⟩
  · exact ⟨⟨hconfig, hstate, hleader, hvotes⟩, rfl⟩
  · exact ⟨⟨hconfig, hstate, hleader, hvotes⟩, rfl⟩
  · exact ⟨⟨hconfig, hstate, hleader, .inl rfl⟩, rfl⟩
  · refine ⟨⟨hconfig, hstate, hleader, .inr ?_⟩, rfl⟩
    show n.votesReceived.insert n.config.nodeId true = _
    rw [hconfig]
    rcases hvotes with hnone | hown
    · rw [hnone]
    · rw [hown, AList.insert_insert]
  · exact ⟨⟨hconfig, hstate, hleader, hvotes⟩, rfl⟩
  · refine ⟨⟨hconfig, hstate, hleader, hvotes⟩, if_neg ?_⟩
    have hcount : n.countVotes ≤ 1 := by
      rcases hvotes with hnone | hown
      · rw [RaftNode.countVotes, hnone]
        exact Nat.zero_le 1
      · rw [RaftNode.countVotes, hown]
        exact Nat.le_refl 1
    intro hwon
    rw [hconfig] at hwon
    exact hpeers ((RaftNode.votesNeeded_le_one_iff config).mp (Nat.le_trans hwon hcount))

/-- Such a node as it runs: nothing is under way that could make it lead. -/
structure Idle (config : RaftConfig) (s : Runtime) : Prop where
  node : Unled config s.node
  pieces : ∀ piece ∈ s.pieces, piece ∈ electionPieces
  commands : ∀ command ∈ s.taken ++ s.commands, command = .startElection
  silent : s.heartbeatTimer ≠ .sending

theorem Idle.next (hpeers : config.clusterNodes ≠ []) (h : s.Idle config)
    (hnext : s.next = some s') : s'.Idle config := by
  obtain ⟨-, -, htimer, hchannel⟩ := next_frame hnext
  obtain ⟨hnode, hpieces, hcommands, hsilent⟩ := h
  have hcommands' := hchannel ▸ hcommands
  have hsilent' := htimer ▸ hsilent
  rw [Runtime.next] at hnext
  split at hnext
  · rename_i piece pieces hhand
    rw [hhand] at hpieces
    obtain ⟨hpiece, hrest⟩ := List.forall_mem_cons.mp hpieces
    obtain ⟨hmoved, hnothing⟩ := hnode.piece hpeers hpiece
    cases hnext
    refine ⟨hmoved, ?_, hcommands', hsilent'⟩
    rw [hnothing]
    exact hrest
  · split at hnext
    · cases hnext
    · rename_i command commands hwaiting
      have hmem : command ∈ s.taken ++ s.commands := by
        rw [hwaiting]
        exact List.mem_append_right _ List.mem_cons_self
      obtain rfl := hcommands command hmem
      cases hnext
      exact ⟨hnode, fun piece hpiece => hpiece, hcommands', hsilent'⟩

theorem step_silent (hstep : s.step timing turn = some s') (hstate : s.node.state ≠ .leader)
    (hsilent : s.heartbeatTimer ≠ .sending) : s'.heartbeatTimer ≠ .sending := by
  cases turn with
  | next =>
      obtain ⟨-, -, htimer, -⟩ := next_frame hstep
      rwa [htimer]
  | pass d =>
      cases hstep
      exact hsilent
  | sleep timeout | compare timeout | request =>
      simp only [Runtime.step] at hstep
      split at hstep <;> cases hstep
      exact hsilent
  | wake =>
      simp only [Runtime.step] at hstep
      split at hstep
      · split at hstep <;> cases hstep
        exact hsilent
      · cases hstep
  | beat =>
      simp only [Runtime.step, if_neg hstate] at hstep
      split at hstep
      · split at hstep <;> cases hstep
        exact HeartbeatTimer.noConfusion
      · cases hstep
  | rest | announce =>
      simp only [Runtime.step] at hstep
      split at hstep <;> cases hstep
      exact HeartbeatTimer.noConfusion

theorem Idle.step (hpeers : config.clusterNodes ≠ []) (h : s.Idle config)
    (hstep : s.step timing turn = some s') : s'.Idle config := by
  rcases step_cases hstep with ⟨-, hnext⟩ | ⟨hnode, hpieces, -, -⟩
  · exact h.next hpeers hnext
  have hsilent := step_silent hstep h.node.state h.silent
  refine ⟨hnode ▸ h.node, hpieces ▸ h.pieces, ?_, hsilent⟩
  rcases step_commands hstep with hsame | ⟨-, hsent⟩ | ⟨hsending, -⟩
  · rw [hsame]
    exact h.commands
  · rw [hsent]
    exact List.forall_mem_append.mpr ⟨h.commands, List.forall_mem_singleton.mpr rfl⟩
  · exact absurd hsending h.silent

end

end Runtime

/-! ## What a node does as it runs

The three invariants, on what is in hand, on the channel and on the time that has
passed, are kept by every turn, and the results read them off the state that a run has
reached. -/

section
variable {timing : Timing} {config : RaftConfig} {s : Runtime} {turns : List Turn}

theorem Runtime.run_follows (hrun : Lts.run (Runtime.step timing) (.start config) turns = some s) :
    s.Follows config := by
  have hstart : (Runtime.start config).Follows config :=
    (Loop.returns_inr (pieceTurn_nil (.new config))).mpr rfl
  exact Lts.run_invariant (Runtime.Follows config) Runtime.Follows.step hstart hrun

theorem Runtime.run_private (hrun : Lts.run (Runtime.step timing) (.start config) turns = some s) :
    s.Private :=
  Lts.run_invariant Runtime.Private Runtime.Private.step
    ⟨List.forall_mem_nil _, List.forall_mem_nil _⟩ hrun

theorem Runtime.Follows.node_eq (h : s.Follows config) (hidle : s.pieces = []) :
    s.node = s.taken.foldl RaftNode.obey (.new config) := by
  rw [Runtime.Follows, hidle] at h
  exact ((Loop.returns_inr (pieceTurn_nil s.node)).mp h).symm

/-- Between two commands the node has held as many elections as it was told to. -/
theorem Runtime.run_held (hrun : Lts.run (Runtime.step timing) (.start config) turns = some s)
    (hidle : s.pieces = []) : Held config (s.taken.count .startElection) s.node := by
  have hcommands := (Runtime.run_private hrun).commands
  rw [(Runtime.run_follows hrun).node_eq hidle]
  exact held_elections config (fun command h => hcommands command (List.mem_append_left _ h))

end

theorem foldl_obey (taken : List RaftCommand) (n : RaftNode) :
    taken.foldl RaftNode.obey n = (taken.filterMap RaftCommand.event).foldl RaftNode.handle n := by
  induction taken generalizing n with
  | nil => rfl
  | cons command taken ih =>
      rw [List.foldl_cons, ih, List.filterMap_cons, RaftNode.obey]
      cases command.event with
      | none => rfl
      | some event => rfl

/-- **The node as it runs refines its handlers.**  However the loop and the two timers are
interleaved, what the pieces in hand lead to is what the handlers make of the commands
taken, one after another; with no piece in hand that is the node; and no command but to
start an election or to send heartbeats is ever in the channel. -/
theorem runtime_refines_handlers (timing : Timing) (config : RaftConfig) (turns : List Turn)
    (s : Runtime) (hrun : Lts.run (Runtime.step timing) (.start config) turns = some s) :
    Loop.Returns pieceTurn (s.pieces, s.node)
        ((s.taken.filterMap RaftCommand.event).foldl RaftNode.handle (.new config)) ∧
      (s.pieces = [] →
        s.node = (s.taken.filterMap RaftCommand.event).foldl RaftNode.handle (.new config)) ∧
      ∀ command ∈ s.taken ++ s.commands,
        command = .startElection ∨ command = .sendHeartbeats := by
  have hfollows := Runtime.run_follows hrun
  rw [← foldl_obey]
  exact ⟨hfollows, hfollows.node_eq, (Runtime.run_private hrun).commands⟩

/-- The first election of a node without peers. -/
def firstElection : List Turn :=
  [.sleep 150, .pass 160, .wake, .compare 155, .request] ++ List.replicate 10 .next

/-- A node as some turns leave it. -/
def afterTurns (config : RaftConfig) (turns : List Turn) : Option Runtime :=
  Lts.run (Runtime.step .default) (.start config) turns

theorem exists_afterTurns {config : RaftConfig} {turns : List Turn} (p : Runtime → Bool)
    (h : (afterTurns config turns).any p = true) : ∃ s, afterTurns config turns = some s ∧ p s :=
  (Option.any_eq_true p _).mp h

/-- In the middle of its first election the node has a term and no vote. -/
theorem runtime_refines_handlers_first : ∃ s,
    afterTurns .default (firstElection.take 8) = some s ∧
    s.node.currentTerm = 1 ∧ s.node.votedFor = none ∧
    Loop.Returns pieceTurn (s.pieces, s.node)
      ((s.taken.filterMap RaftCommand.event).foldl RaftNode.handle (.new .default)) := by
  obtain ⟨s, hrun, hs⟩ := exists_afterTurns
    (fun s => decide (s.node.currentTerm = 1 ∧ s.node.votedFor = none))
    (by decide +kernel : (afterTurns .default (firstElection.take 8)).any _ = true)
  obtain ⟨hterm, hvote⟩ := of_decide_eq_true hs
  exact ⟨s, hrun, hterm, hvote,
    (runtime_refines_handlers .default .default (firstElection.take 8) s hrun).1⟩

/-- **A node that has peers never leads**, and never knows of a leader: no vote is asked
of anyone, and no heartbeat sent. -/
theorem peers_never_lead (timing : Timing) (config : RaftConfig)
    (hpeers : config.clusterNodes ≠ []) (turns : List Turn) (s : Runtime)
    (hrun : Lts.run (Runtime.step timing) (.start config) turns = some s) :
    s.node.isLeader = false ∧ s.node.leader = none ∧
      ∀ command ∈ s.taken ++ s.commands, command = .startElection := by
  have hstart : (Runtime.start config).Idle config :=
    ⟨⟨rfl, NodeState.noConfusion, rfl, .inl rfl⟩, List.forall_mem_nil _, List.forall_mem_nil _,
      HeartbeatTimer.noConfusion⟩
  have hidle : s.Idle config :=
    Lts.run_invariant (Runtime.Idle config) (Runtime.Idle.step hpeers) hstart hrun
  exact ⟨decide_eq_false hidle.node.state, hidle.node.leader, hidle.commands⟩

/-- The first of three nodes. -/
def firstOfThree : RaftConfig := { nodeId := 1, clusterNodes := [2, 3] }

theorem peers_never_lead_three : ∃ s,
    afterTurns firstOfThree (firstElection.take 13) = some s ∧ s.pieces = [] ∧
    s.node.state = .candidate ∧ s.node.isLeader = false ∧ s.node.leader = none := by
  obtain ⟨s, hrun, hs⟩ := exists_afterTurns
    (fun s => decide (s.pieces = [] ∧ s.node.state = .candidate))
    (by decide +kernel : (afterTurns firstOfThree (firstElection.take 13)).any _ = true)
  obtain ⟨hidle, hstate⟩ := of_decide_eq_true hs
  obtain ⟨hleader, hknown, -⟩ :=
    peers_never_lead .default firstOfThree (by decide) (firstElection.take 13) s hrun
  exact ⟨s, hrun, hidle, hstate, hleader, hknown⟩

/-- **A node without peers leads** from its first election on, whenever no command is
being carried out, and its term is the number of its elections. -/
theorem alone_leads (timing : Timing) (config : RaftConfig) (halone : config.clusterNodes = [])
    (turns : List Turn) (s : Runtime)
    (hrun : Lts.run (Runtime.step timing) (.start config) turns = some s) (hidle : s.pieces = [])
    (helection : .startElection ∈ s.taken) :
    s.node.isLeader = true ∧ s.node.leader = some config.nodeId ∧
      s.node.currentTerm = UInt64.ofNat (s.taken.count .startElection) := by
  have hheld := Runtime.run_held hrun hidle
  have hsome : s.taken.count .startElection ≠ 0 :=
    Nat.ne_of_gt (List.count_pos_iff.mpr helection)
  have hstate := hheld.state
  have hleader := hheld.leader
  rw [if_neg hsome, if_pos halone] at hstate hleader
  exact ⟨decide_eq_true hstate, hleader, hheld.term⟩

theorem alone_leads_first : ∃ s, afterTurns .default firstElection = some s ∧
    s.node.isLeader = true ∧ s.node.leader = some 0 ∧
    s.node.currentTerm = UInt64.ofNat (s.taken.count .startElection) := by
  obtain ⟨s, hrun, hs⟩ := exists_afterTurns
    (fun s => decide (s.pieces = [] ∧ RaftCommand.startElection ∈ s.taken))
    (by decide +kernel : (afterTurns .default firstElection).any _ = true)
  obtain ⟨hidle, helection⟩ := of_decide_eq_true hs
  exact ⟨s, hrun, alone_leads .default .default rfl firstElection s hrun hidle helection⟩

/-- **The pace of elections.**  Every election that was asked for, carried out or not, has
had the shortest election timeout to itself; so no term comes faster. -/
theorem elections_rate (timing : Timing) (config : RaftConfig) (turns : List Turn) (s : Runtime)
    (hrun : Lts.run (Runtime.step timing) (.start config) turns = some s) :
    (s.taken ++ s.commands).count .startElection * timing.electionTimeoutMin ≤ s.now ∧
      (s.pieces = [] → s.node.currentTerm.toNat * timing.electionTimeoutMin ≤ s.now) := by
  have hstart : (Runtime.start config).Paced timing :=
    Runtime.Paced.drawing (by rw [Runtime.requests]; simp [Runtime.start]) rfl
  have hpaced : s.Paced timing :=
    Lts.run_invariant (Runtime.Paced timing) Runtime.Paced.step hstart hrun
  refine ⟨hpaced.sent, fun hidle => Nat.le_trans (Nat.mul_le_mul_right _ ?_) hpaced.sent⟩
  rw [(Runtime.run_held hrun hidle).term, UInt64.toNat_ofNat']
  refine Nat.le_trans (Nat.mod_le _ _) ?_
  rw [Runtime.requests, List.count_append]
  exact Nat.le_add_right _ _

theorem elections_rate_first : ∃ s, afterTurns .default firstElection = some s ∧
    s.node.currentTerm = 1 ∧ s.node.currentTerm.toNat * 150 ≤ s.now := by
  obtain ⟨s, hrun, hs⟩ := exists_afterTurns
    (fun s => decide (s.pieces = [] ∧ s.node.currentTerm = 1))
    (by decide +kernel : (afterTurns .default firstElection).any _ = true)
  obtain ⟨hidle, hterm⟩ := of_decide_eq_true hs
  exact ⟨s, hrun, hterm, (elections_rate .default .default firstElection s hrun).2 hidle⟩

end Dolda.Raft
