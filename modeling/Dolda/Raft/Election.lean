/-
# `Dolda.Raft.Election` — one candidate for a term

A cluster of nodes that start elections and handle vote requests and heartbeats
in any order.  Nothing is assumed about the messages: a node may be handed any,
at any time, so a run covers messages that are lost, late, doubled or forged.

A node supports a candidate by granting it a vote, or by voting for itself.  Each
node's votes are a ballot (`Dolda.Lib.Ballot`): a higher term, from wherever it
comes, moves it to a later round, and within a term it grants what it has on
record or, with nothing on record, what it then records.  So it supports one
candidate in a term, and since the votes needed are more than half of the members
(`Cluster.lt_votesNeeded_add`), no two candidates both get them.

Whether the votes needed are a majority depends on who is listed.  At the start of an
election there is one vote, and a node that lists itself alone does not win with it
(`leads_by_majority_iff`).
-/
import Dolda.Lib.Ballot
import Dolda.Lib.Lts
import Dolda.Raft.Node

namespace Dolda.Raft

/-- The configurations of the members: no two have one id, and each lists all the
others. -/
structure Cluster (ι : Type*) where
  config : ι → RaftConfig
  distinct : Function.Injective (fun i => (config i).nodeId)
  listed : ∀ i j, i ≠ j → (config j).nodeId ∈ (config i).clusterNodes

/-- The nodes, and the votes each of them cast: term and candidate. -/
structure World (ι : Type*) where
  nodes : ι → RaftNode
  votes : ι → List (Term × NodeId)

/-- The candidate a call makes the node support, with the term. -/
def RaftNode.cast (n : RaftNode) : Event → List (Term × NodeId)
  | .startElection => [(n.startElection.currentTerm, n.config.nodeId)]
  | .voteRequest request =>
      let response := (n.handleVoteRequest request).1
      if response.voteGranted then [(response.term, request.candidateId)] else []
  | .heartbeat _ => []

namespace World

variable {ι : Type*} [DecidableEq ι]

def start (C : Cluster ι) : World ι :=
  { nodes := fun i => RaftNode.new (C.config i), votes := fun _ => [] }

/-- One node handles one call. -/
def step (w : World ι) (call : ι × Event) : Option (World ι) :=
  let (i, event) := call
  some
    { nodes := Function.update w.nodes i ((w.nodes i).handle event)
      votes := Function.update w.votes i (w.votes i ++ (w.nodes i).cast event) }

def Supports (w : World ι) (i : ι) (term : Term) (candidate : NodeId) : Prop :=
  (term, candidate) ∈ w.votes i

instance (w : World ι) (i : ι) (term : Term) (candidate : NodeId) :
    Decidable (w.Supports i term candidate) :=
  inferInstanceAs (Decidable (_ ∈ _))

/-- Some member's count of the votes needed is reached. -/
def Elects [Fintype ι] (C : Cluster ι) (w : World ι) (term : Term) (candidate : NodeId) : Prop :=
  ∃ i, (C.config i).votesNeeded ≤
    (Finset.univ.filter (fun j => w.Supports j term candidate)).card

end World

/-! ## One node -/

/-- The votes of a node are a ballot over its terms. -/
def RaftNode.Votes (n : RaftNode) (votes : List (Term × NodeId)) : Prop :=
  Ballot.Sound n.currentTerm n.votedFor votes

/-- **Every call keeps the ballot**, a start of an election at the last term
apart. -/
theorem RaftNode.Votes.handle {n : RaftNode} {votes : List (Term × NodeId)} (h : n.Votes votes)
    (hterm : n.currentTerm ≠ maxTerm) (event : Event) :
    (n.handle event).Votes (votes ++ n.cast event) := by
  cases event with
  | startElection =>
      have hnext := Ballot.Sound.advance h (lt_add_one_of_ne hterm) none
      simp only [RaftNode.handle, RaftNode.cast, RaftNode.Votes, startElection_eq]
      exact hnext.cast (Or.inl rfl)
  | voteRequest request =>
      simp only [RaftNode.handle, RaftNode.cast, RaftNode.Votes]
      rcases n.handleVoteRequest_cases request with
        ⟨-, heq⟩ | ⟨hhigher, heq⟩ | ⟨hsame, hvote, heq⟩ | ⟨-, heq⟩
      · rw [heq, if_neg Bool.false_ne_true, List.append_nil]
        exact h
      · rw [heq, if_pos rfl]
        exact (Ballot.Sound.advance h hhigher none).cast (Or.inl rfl)
      · rw [heq, if_pos rfl, hsame]
        exact Ballot.Sound.cast h hvote
      · rw [heq, if_neg Bool.false_ne_true, List.append_nil]
        exact h
  | heartbeat heartbeat =>
      simp only [RaftNode.handle, RaftNode.cast, RaftNode.Votes, List.append_nil]
      rcases n.handleHeartbeat_cases heartbeat with ⟨-, heq⟩ | ⟨hle, heq⟩
      · rw [heq]
        exact h
      · rw [heq]
        by_cases hhigher : n.currentTerm < heartbeat.term
        · exact Ballot.Sound.advance h hhigher _
        · have hsame : heartbeat.term = n.currentTerm :=
            UInt64.le_antisymm (UInt64.not_lt.mp hhigher) hle
          dsimp only
          rw [if_neg hhigher, hsame]
          exact h

/-! ## The cluster -/

section
variable {ι : Type*} [DecidableEq ι] {C : Cluster ι}

/-- In a run that never reaches the last term every node's votes are a ballot. -/
theorem World.votes_sound {calls : List (ι × Event)} {w : World ι}
    (hrun : Lts.run World.step (.start C) calls = some w)
    (hterms : Lts.Always World.step (fun w => ∀ i, (w.nodes i).currentTerm ≠ maxTerm)
      (.start C) calls) : ∀ i, (w.nodes i).Votes (w.votes i) := by
  refine Lts.Guarded.invariant (fun w => ∀ i, (w.nodes i).Votes (w.votes i)) ?_
    (fun i => Ballot.Sound.fresh _ _) hterms.guarded hrun
  rintro w ⟨i, event⟩ w' h hok hstep j
  cases hstep
  by_cases hj : j = i
  · subst hj
    simp only [Function.update_self]
    exact (h j).handle (hok j) event
  · simp only [Function.update_of_ne hj]
    exact h j

variable [Fintype ι]

/-- Each member lists the others, so it asks for more than half of the votes. -/
theorem Cluster.lt_votesNeeded_add (C : Cluster ι) (i j : ι) :
    Fintype.card ι < (C.config i).votesNeeded + (C.config j).votesNeeded := by
  have hmost : ∀ k, Fintype.card ι ≤ (C.config k).clusterNodes.length + 1 := by
    intro k
    have himage : (Finset.univ.erase k).image (fun l => (C.config l).nodeId) ⊆
        (C.config k).clusterNodes.toFinset := by
      intro id hid
      obtain ⟨l, hl, rfl⟩ := Finset.mem_image.mp hid
      exact List.mem_toFinset.mpr (C.listed k l (Finset.ne_of_mem_erase hl).symm)
    have hcard := (Finset.card_le_card himage).trans (List.toFinset_card_le _)
    rw [Finset.card_image_of_injective _ C.distinct, Finset.card_erase_of_mem (Finset.mem_univ k),
      Finset.card_univ] at hcard
    omega
  have hi := hmost i
  have hj := hmost j
  unfold RaftConfig.votesNeeded
  omega

/-- **One candidate for a term.**  In every run of a cluster that never reaches the
last term a member supports at most one candidate in a term, and at most one
candidate has the votes needed. -/
theorem one_candidate_per_term (C : Cluster ι) {calls : List (ι × Event)} {w : World ι}
    (hrun : Lts.run World.step (.start C) calls = some w)
    (hterms : Lts.Always World.step (fun w => ∀ i, (w.nodes i).currentTerm ≠ maxTerm)
      (.start C) calls) (term : Term) :
    (∀ i candidate candidate', w.Supports i term candidate → w.Supports i term candidate' →
      candidate = candidate') ∧
    ∀ candidate candidate', w.Elects C term candidate → w.Elects C term candidate' →
      candidate = candidate' := by
  have hsingle : ∀ i candidate candidate', w.Supports i term candidate →
      w.Supports i term candidate' → candidate = candidate' :=
    fun i candidate candidate' => (World.votes_sound hrun hterms i).single
  refine ⟨hsingle, ?_⟩
  rintro candidate candidate' ⟨i, hi⟩ ⟨j, hj⟩
  exact Ballot.quorums_agree hsingle (fun k hk => (Finset.mem_filter.mp hk).2)
    (fun k hk => (Finset.mem_filter.mp hk).2)
    ((C.lt_votesNeeded_add i j).trans_le (Nat.add_le_add hi hj))

end

/-- Three members. -/
def trio : Cluster (Fin 3) where
  config i := { nodeId := UInt64.ofNat i, clusterNodes := [0, 1, 2] }
  distinct := by decide
  listed := by decide

/-- An election in which a second candidate asks for a vote given to the first. -/
def contested : List (Fin 3 × Event) :=
  [(0, .startElection), (1, .startElection), (2, .voteRequest ⟨1, 0, 0, 0⟩),
    (2, .voteRequest ⟨1, 1, 0, 0⟩), (1, .heartbeat ⟨1, 0⟩)]

theorem one_candidate_per_term_contested : ∃ w,
    Lts.run World.step (.start trio) contested = some w ∧
    (∀ i candidate candidate', w.Supports i 1 candidate → w.Supports i 1 candidate' →
      candidate = candidate') ∧
    ∀ candidate candidate', w.Elects trio 1 candidate → w.Elects trio 1 candidate' →
      candidate = candidate' := by
  have hterms : Lts.Always World.step (fun w => ∀ i, (w.nodes i).currentTerm ≠ maxTerm)
      (.start trio) contested := by
    decide
  exact ⟨_, rfl, one_candidate_per_term trio rfl hterms 1⟩

/-! ## Majorities -/

/-- The members of the cluster: those listed, and the node itself. -/
def RaftConfig.members (config : RaftConfig) : Finset NodeId :=
  insert config.nodeId config.clusterNodes.toFinset

/-- A node is alone iff it lists no other. -/
theorem card_members_le_one_iff (config : RaftConfig) :
    config.members.card ≤ 1 ↔ ∀ peer ∈ config.clusterNodes, peer = config.nodeId := by
  have hself : config.nodeId ∈ config.members := Finset.mem_insert_self _ _
  rw [Finset.card_le_one]
  constructor
  · intro hsame peer hpeer
    exact hsame peer (Finset.mem_insert_of_mem (List.mem_toFinset.mpr hpeer)) _ hself
  · intro hself a ha b hb
    have hall : ∀ id ∈ config.members, id = config.nodeId := by
      intro id hid
      rcases Finset.mem_insert.mp hid with heq | hlisted
      · exact heq
      · exact hself id (List.mem_toFinset.mp hlisted)
    rw [hall a ha, hall b hb]

/-- **When an election is won by majority.**  After `start_election` the node is leader
iff more than half of the members granted it a vote, except where the list is not empty
and names no other node: then the node is the only member, and is not leader. -/
theorem leads_by_majority_iff (n : RaftNode) :
    (n.startElection.state = .leader ↔
        n.config.members.card < 2 * n.startElection.countVotes) ↔
      n.config.clusterNodes = [] ∨ ∃ peer ∈ n.config.clusterNodes, peer ≠ n.config.nodeId := by
  have hvotes : n.startElection.countVotes = 1 := by
    rw [RaftNode.startElection_eq]
    rfl
  have hleads : n.startElection.state = .leader ↔ n.config.clusterNodes = [] := by
    rw [RaftNode.startElection_eq]
    dsimp only
    split
    · exact iff_of_true rfl ‹_›
    · refine iff_of_false ?_ ‹_›
      intro hcandidate
      cases hcandidate
  have halone : n.config.members.card < 2 * 1 ↔
      ∀ peer ∈ n.config.clusterNodes, peer = n.config.nodeId := by
    rw [← card_members_le_one_iff]
    omega
  rw [hvotes, hleads, halone]
  constructor
  · intro hiff
    by_cases hall : ∀ peer ∈ n.config.clusterNodes, peer = n.config.nodeId
    · exact Or.inl (hiff.mpr hall)
    · simp only [not_forall, exists_prop] at hall
      exact Or.inr hall
  · rintro (hnone | ⟨peer, hpeer, hother⟩)
    · refine iff_of_true hnone ?_
      rw [hnone]
      intro peer hpeer
      cases hpeer
    · refine iff_of_false (List.ne_nil_of_mem hpeer) ?_
      intro hall
      exact hother (hall peer hpeer)

/-- **A cluster of one that is not won**: the node lists itself, as the members of a
cluster do, and the one vote there is does not suffice. -/
theorem alone_not_leader :
    let n := (RaftNode.new { nodeId := 1, clusterNodes := [1] }).startElection
    n.state = .candidate ∧ n.countVotes = 1 ∧ n.config.members = {1} ∧
      n.config.members.card < 2 * n.countVotes := by
  decide

end Dolda.Raft
