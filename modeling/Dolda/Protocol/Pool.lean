/-
# `Dolda.Protocol.Pool` — the connections that callers share

`ConnectionPool` of `src/network.rs`.  A call of `get_connection` looks for its address
in the pool.  If it finds none it waits for a connection to be opened, and puts that in
without looking again; meanwhile other calls begin and end, and connections are removed.
Any interleaving of them is a run of `step`.

**Where the connections are.**  Each one that was opened is in one place: with the call
that opened it and has not put it in yet, in the pool, or dropped from there, by a
removal or by a later one to the same address.  It is pooled, and handed out, under its
own address only (`connections_conserved`).

**How many there are.**  Two calls that both look before either puts its connection in
open two, and the holder of the first is left with one that the next caller does not get.
If no call begins while one to the same address is under way, all the connections to it
but one were removed, and without a removal its callers share one (`callers_share`).
-/
import Dolda.Lib.Lts
import Dolda.Protocol.Header
import Mathlib.Data.List.AList
import Mathlib.Data.List.NodupEquivFin

namespace Dolda.Protocol

open Network (IoError)

/-! ## The pool and the calls

A call looks for a connection, opens one without the lock if there is none, and puts it
into the pool; so others may come in between.  A connection it replaces there is dropped. -/

section
variable {Addr : Type} [DecidableEq Addr]

/-- The connections are known by their numbers, in the order in which they were
opened. -/
structure ConnectionPool (Addr : Type) where
  connections : AList (fun _ : Addr => Nat)

namespace ConnectionPool

def new : ConnectionPool Addr := ⟨∅⟩

def removeConnection (addr : Addr) (pool : ConnectionPool Addr) : ConnectionPool Addr :=
  ⟨pool.connections.erase addr⟩

def connectionCount (pool : ConnectionPool Addr) : Nat := pool.connections.keys.length

/-- The connections in the pool. -/
def pooled (pool : ConnectionPool Addr) : List Nat := pool.connections.entries.map (·.2)

end ConnectionPool

/-- Where a call of `get_connection` is. -/
inductive GetConnection (Addr : Type) where
  | connecting (addr : Addr)
  | connected (addr : Addr) (conn : Nat)
  | returned (addr : Addr) (result : Except NetworkError Nat)

/-- A pool and the calls so far, with the address each connection was opened to. -/
structure Callers (Addr : Type) where
  pool : ConnectionPool Addr
  calls : List (GetConnection Addr)
  opened : List Addr

namespace Callers

inductive Event (Addr : Type) where
  /-- A call begins, and looks in the pool. -/
  | getConnection (addr : Addr)
  /-- The connection that the `i`-th call waits for is there, or fails. -/
  | connect (i : Nat) (result : Except IoError Unit)
  /-- The `i`-th call puts its connection in, and returns it. -/
  | insert (i : Nat)
  | removeConnection (addr : Addr)

def new : Callers Addr := { pool := .new, calls := [], opened := [] }

def getConnection (addr : Addr) (s : Callers Addr) : Callers Addr :=
  match s.pool.connections.lookup addr with
  | some conn => { s with calls := s.calls ++ [.returned addr (.ok conn)] }
  | none => { s with calls := s.calls ++ [.connecting addr] }

def connect (i : Nat) (result : Except IoError Unit) (s : Callers Addr) :
    Option (Callers Addr) :=
  match s.calls[i]?, result with
  | some (.connecting addr), .ok () =>
      some { s with
        calls := s.calls.set i (.connected addr s.opened.length)
        opened := s.opened ++ [addr] }
  | some (.connecting addr), .error e =>
      some { s with calls := s.calls.set i (.returned addr (.error (.io e))) }
  | _, _ => none

def insert (i : Nat) (s : Callers Addr) : Option (Callers Addr) :=
  match s.calls[i]? with
  | some (.connected addr conn) =>
      some { s with
        pool := ⟨s.pool.connections.insert addr conn⟩
        calls := s.calls.set i (.returned addr (.ok conn)) }
  | _ => none

def step (s : Callers Addr) : Event Addr → Option (Callers Addr)
  | .getConnection addr => some (s.getConnection addr)
  | .connect i result => s.connect i result
  | .insert i => s.insert i
  | .removeConnection addr => some { s with pool := s.pool.removeConnection addr }

/-- The connection that a step drops from the pool. -/
def dropped (s : Callers Addr) : Event Addr → List Nat
  | .insert i =>
      match s.calls[i]? with
      | some (.connected addr _) => (s.pool.connections.lookup addr).toList
      | _ => []
  | .removeConnection addr => (s.pool.connections.lookup addr).toList
  | _ => []

/-- The address that a step removes a connection to. -/
def forgotten (s : Callers Addr) : Event Addr → List Addr
  | .removeConnection addr => (s.pool.connections.lookup addr).toList.map (fun _ => addr)
  | _ => []

end Callers

namespace GetConnection

/-- The connection that a call has opened and not put in yet. -/
def inHand : GetConnection Addr → Option Nat
  | .connected _ conn => some conn
  | _ => none

/-- The connection of a call, and what it is to be to. -/
def holds : GetConnection Addr → Option (Addr × Nat)
  | .connecting _ => none
  | .connected addr conn => some (addr, conn)
  | .returned addr (.ok conn) => some (addr, conn)
  | .returned _ (.error _) => none

def isConnecting (addr : Addr) : GetConnection Addr → Bool
  | .connecting a => a = addr
  | _ => false

def isConnected (addr : Addr) : GetConnection Addr → Bool
  | .connected a _ => a = addr
  | _ => false

end GetConnection

namespace Callers

/-- A call to the address is under way. -/
def UnderWay (addr : Addr) (s : Callers Addr) : Prop :=
  ∃ call ∈ s.calls, call.isConnecting addr = true ∨ call.isConnected addr = true

/-- No call begins while one to the same address is under way. -/
def Alone (s : Callers Addr) : Event Addr → Prop
  | .getConnection addr => ¬ s.UnderWay addr
  | _ => True

instance UnderWay.decidable (addr : Addr) (s : Callers Addr) : Decidable (s.UnderWay addr) :=
  inferInstanceAs (Decidable (∃ call ∈ s.calls, _ ∨ _))

instance Alone.decidable (s : Callers Addr) : ∀ event, Decidable (Alone s event)
  | .getConnection addr => inferInstanceAs (Decidable (¬ s.UnderWay addr))
  | .connect _ _ => isTrue trivial
  | .insert _ => isTrue trivial
  | .removeConnection _ => isTrue trivial

/-! ## What a step does -/

/-- The cases of `step`. -/
inductive Takes (s : Callers Addr) : Event Addr → Callers Addr → Prop where
  | hit {addr : Addr} {conn : Nat} : s.pool.connections.lookup addr = some conn →
      Takes s (.getConnection addr) { s with calls := s.calls ++ [.returned addr (.ok conn)] }
  | miss {addr : Addr} : s.pool.connections.lookup addr = none →
      Takes s (.getConnection addr) { s with calls := s.calls ++ [.connecting addr] }
  | opens {i : Nat} {addr : Addr} {pre post : List (GetConnection Addr)} :
      s.calls = pre ++ .connecting addr :: post →
        Takes s (.connect i (.ok ()))
          { s with
            calls := pre ++ .connected addr s.opened.length :: post
            opened := s.opened ++ [addr] }
  | fails {i : Nat} {e : IoError} {addr : Addr} {pre post : List (GetConnection Addr)} :
      s.calls = pre ++ .connecting addr :: post →
        Takes s (.connect i (.error e))
          { s with calls := pre ++ .returned addr (.error (.io e)) :: post }
  | inserts {i : Nat} {addr : Addr} {conn : Nat} {pre post : List (GetConnection Addr)} :
      s.calls = pre ++ .connected addr conn :: post →
        dropped s (.insert i) = (s.pool.connections.lookup addr).toList →
          Takes s (.insert i)
            { s with
              pool := ⟨s.pool.connections.insert addr conn⟩
              calls := pre ++ .returned addr (.ok conn) :: post }
  | removes {addr : Addr} :
      Takes s (.removeConnection addr) { s with pool := s.pool.removeConnection addr }

variable {s s' : Callers Addr} {event : Event Addr} {events : List (Event Addr)}

theorem step_takes (h : step s event = some s') : Takes s event s' := by
  cases event with
  | getConnection addr =>
      simp only [step, getConnection, Option.some.injEq] at h
      cases hlookup : s.pool.connections.lookup addr with
      | some conn =>
          rw [hlookup] at h
          exact h ▸ .hit hlookup
      | none =>
          rw [hlookup] at h
          exact h ▸ .miss hlookup
  | connect i result =>
      simp only [step, connect] at h
      split at h
      · next addr hcall =>
          obtain ⟨pre, post, hcalls, hset, -⟩ := Lts.exists_split hcall
          rw [hset] at h
          cases h
          exact .opens hcalls
      · next addr e hcall =>
          obtain ⟨pre, post, hcalls, hset, -⟩ := Lts.exists_split hcall
          rw [hset] at h
          cases h
          exact .fails hcalls
      · cases h
  | insert i =>
      simp only [step, insert] at h
      split at h
      · next addr conn hcall =>
          obtain ⟨pre, post, hcalls, hset, -⟩ := Lts.exists_split hcall
          rw [hset] at h
          cases h
          exact .inserts hcalls (by simp only [dropped, hcall])
      · cases h
  | removeConnection addr =>
      cases h
      exact .removes

/-! ## Where the connections are

Counted with their places the connections opened are those in the pool, those in the
hands of calls, and those dropped.  Every step moves one of them, or opens one. -/

/-- The pool, split at an address. -/
theorem entries_perm (connections : AList (fun _ : Addr => Nat)) (addr : Addr) :
    (connections.entries.map (·.2)).Perm
      ((connections.lookup addr).toList ++ (connections.erase addr).entries.map (·.2)) := by
  cases hlookup : connections.lookup addr with
  | none =>
      have habsent : addr ∉ connections.entries.keys := AList.lookup_eq_none.mp hlookup
      have herase : (connections.erase addr).entries = connections.entries :=
        List.kerase_of_notMem_keys habsent
      rw [herase]
      exact List.Perm.refl _
  | some conn =>
      have hmem : addr ∈ connections.entries.keys :=
        AList.lookup_isSome.mp (by rw [hlookup]; rfl)
      obtain ⟨conn', pre, post, hpre, hentries, herase⟩ := List.exists_of_kerase hmem
      have hconn : conn' = conn := by
        have hfound : connections.lookup addr = some conn' := by
          refine AList.mem_lookup_iff.mpr ?_
          rw [hentries]
          exact List.mem_append_right _ List.mem_cons_self
        rw [hlookup] at hfound
        exact (Option.some.inj hfound).symm
      have herased : (connections.erase addr).entries = pre ++ post := herase
      rw [hentries, herased, hconn, List.map_append, List.map_append, List.map_cons,
        Option.toList_some, List.singleton_append]
      exact List.perm_middle

/-- Each connection is to the address it goes by, and in one place. -/
structure Sound (s : Callers Addr) (gone : List Nat) : Prop where
  pool : ∀ addr conn, s.pool.connections.lookup addr = some conn → s.opened[conn]? = some addr
  calls : ∀ call ∈ s.calls, ∀ x, call.holds = some x → s.opened[x.2]? = some x.1
  placed : (s.calls.filterMap GetConnection.inHand ++ (s.pool.pooled ++ gone)).Perm
    (List.range s.opened.length)

/-- A call is added or replaced, and the connections stay where they are. -/
theorem Sound.recalled {gone : List Nat} (h : Sound s gone) {calls : List (GetConnection Addr)}
    (hcalls : ∀ call ∈ calls, ∀ x, call.holds = some x → s.opened[x.2]? = some x.1)
    (hinHand : calls.filterMap GetConnection.inHand = s.calls.filterMap GetConnection.inHand) :
    Sound { s with calls } gone where
  pool := h.pool
  calls := hcalls
  placed := by
    rw [hinHand]
    exact h.placed

theorem Sound.concat {gone : List Nat} (h : Sound s gone) {call : GetConnection Addr}
    (hholds : ∀ x, call.holds = some x → s.opened[x.2]? = some x.1)
    (hinHand : call.inHand = none) : Sound { s with calls := s.calls ++ [call] } gone := by
  refine h.recalled ?_ ?_
  · intro c hc
    rcases List.mem_append.mp hc with hc | hc
    · exact h.calls c hc
    · rw [List.mem_singleton.mp hc]
      exact hholds
  · rw [List.filterMap_append, List.filterMap_cons_none hinHand, List.filterMap_nil,
      List.append_nil]

/-- A call has moved, and the others have what they had. -/
theorem Sound.replaced {gone : List Nat} (h : Sound s gone) {pre post : List (GetConnection Addr)}
    {call next : GetConnection Addr} (hcalls : s.calls = pre ++ call :: post) {opened : List Addr}
    (hkept : ∀ {conn : Nat} {a : Addr}, s.opened[conn]? = some a → opened[conn]? = some a)
    (hnext : ∀ x, next.holds = some x → opened[x.2]? = some x.1) :
    ∀ c ∈ pre ++ next :: post, ∀ x, c.holds = some x → opened[x.2]? = some x.1 := by
  intro c hc x hx
  rcases Lts.mem_split hc with rfl | hc
  · exact hnext x hx
  · exact hkept (h.calls c (hcalls ▸ Lts.mem_moved hc) x hx)

theorem Sound.step {gone : List Nat} (h : Sound s gone) (hstep : step s event = some s') :
    Sound s' (gone ++ dropped s event) := by
  cases step_takes hstep with
  | @hit addr conn hlookup =>
      show Sound _ (gone ++ [])
      rw [List.append_nil]
      refine h.concat ?_ rfl
      intro x hx
      cases hx
      exact h.pool addr conn hlookup
  | miss hlookup =>
      show Sound _ (gone ++ [])
      rw [List.append_nil]
      refine h.concat ?_ rfl
      intro x hx
      cases hx
  | @opens i addr pre post hcalls =>
      show Sound _ (gone ++ [])
      rw [List.append_nil]
      -- the connections there were are to where they were
      have hkept : ∀ {conn : Nat} {a : Addr}, s.opened[conn]? = some a →
          (s.opened ++ [addr])[conn]? = some a := by
        intro conn a hconn
        obtain ⟨hlt, -⟩ := List.getElem?_eq_some_iff.mp hconn
        rw [List.getElem?_append_left hlt]
        exact hconn
      refine ⟨fun a conn hlookup => hkept (h.pool a conn hlookup), ?_, ?_⟩
      · refine h.replaced hcalls hkept ?_
        intro x hx
        cases hx
        exact List.getElem?_concat_length
      · have hplaced := h.placed
        rw [hcalls, Lts.filterMap_left rfl] at hplaced
        refine List.perm_iff_count.mpr (fun conn => ?_)
        have hbefore := List.perm_iff_count.mp hplaced conn
        show List.count conn ((pre ++ .connected addr s.opened.length :: post).filterMap
          GetConnection.inHand ++ (s.pool.pooled ++ gone)) =
            List.count conn (List.range (s.opened ++ [addr]).length)
        rw [Lts.filterMap_here (f := GetConnection.inHand) rfl, List.length_append,
          List.length_singleton, List.range_succ]
        simp only [List.count_append, List.count_cons, List.count_nil] at hbefore ⊢
        omega
  | @fails i e addr pre post hcalls =>
      show Sound _ (gone ++ [])
      rw [List.append_nil]
      refine h.recalled ?_ ?_
      · refine h.replaced hcalls id ?_
        intro x hx
        cases hx
      · rw [hcalls, Lts.filterMap_left rfl, Lts.filterMap_left rfl]
  | @inserts i addr conn pre post hcalls hdropped =>
      have hconn : s.opened[conn]? = some addr := by
        have hmem : GetConnection.connected addr conn ∈ s.calls := by
          rw [hcalls]
          exact List.mem_append_right _ List.mem_cons_self
        exact h.calls _ hmem (addr, conn) rfl
      refine ⟨?_, ?_, ?_⟩
      · intro a c hlookup
        by_cases ha : a = addr
        · rw [ha, AList.lookup_insert] at hlookup
          rw [← Option.some.inj hlookup, ha]
          exact hconn
        · rw [AList.lookup_insert_ne ha] at hlookup
          exact h.pool a c hlookup
      · refine h.replaced hcalls id ?_
        intro x hx
        cases hx
        exact hconn
      · have hplaced := h.placed
        rw [hcalls, Lts.filterMap_here (f := GetConnection.inHand) rfl] at hplaced
        have hsplit := entries_perm s.pool.connections addr
        refine List.perm_iff_count.mpr (fun c => ?_)
        have hbefore := List.perm_iff_count.mp hplaced c
        have hpool := List.perm_iff_count.mp hsplit c
        rw [Lts.filterMap_left rfl, hdropped, ConnectionPool.pooled, AList.entries_insert]
        simp only [ConnectionPool.pooled, List.map_cons, List.count_append,
          List.count_cons] at hbefore hpool ⊢
        have herase : (s.pool.connections.erase addr).entries =
            s.pool.connections.entries.kerase addr := rfl
        rw [herase] at hpool
        omega
  | @removes addr =>
      refine ⟨?_, h.calls, ?_⟩
      · intro a c hlookup
        by_cases ha : a = addr
        · rw [ha] at hlookup
          rw [ConnectionPool.removeConnection, AList.lookup_erase] at hlookup
          cases hlookup
        · rw [ConnectionPool.removeConnection, AList.lookup_erase_ne ha] at hlookup
          exact h.pool a c hlookup
      · have hsplit := entries_perm s.pool.connections addr
        refine List.perm_iff_count.mpr (fun c => ?_)
        have hbefore := List.perm_iff_count.mp h.placed c
        have hpool := List.perm_iff_count.mp hsplit c
        simp only [ConnectionPool.pooled, ConnectionPool.removeConnection, dropped,
          List.count_append] at hbefore hpool ⊢
        omega

theorem sound_new : Sound (new : Callers Addr) [] where
  pool _ _ h := by cases h
  calls _ h := by cases h
  placed := List.Perm.refl _

theorem sound_of_run (h : Lts.run step new events = some s) :
    Sound s (Lts.outputs step dropped new events) := by
  have hok : Lts.Guarded step (fun _ _ => True) (new : Callers Addr) events :=
    Lts.Guarded.of_forall (fun _ _ => trivial) events new
  exact Lts.Guarded.collects Sound (fun hs _ hstep => hs.step hstep) sound_new hok h

/-- **Every connection is in one place**: with the call that opened it, in the pool, or
dropped from there; and it is pooled and handed out for its own address. -/
theorem connections_conserved (h : Lts.run step new events = some s) :
    (∀ addr conn, s.pool.connections.lookup addr = some conn → s.opened[conn]? = some addr) ∧
      (∀ addr conn, .returned addr (.ok conn) ∈ s.calls → s.opened[conn]? = some addr) ∧
      (s.calls.filterMap GetConnection.inHand ++
        (s.pool.pooled ++ Lts.outputs step dropped new events)).Perm
          (List.range s.opened.length) ∧
      s.opened.length = (s.calls.filterMap GetConnection.inHand).length
        + (s.pool.connectionCount + (Lts.outputs step dropped new events).length) := by
  have hsound := sound_of_run h
  refine ⟨hsound.pool, ?_, hsound.placed, ?_⟩
  · intro addr conn hcall
    exact hsound.calls _ hcall (addr, conn) rfl
  · have hlength := hsound.placed.length_eq
    have hcount : s.pool.connectionCount = s.pool.pooled.length := by
      rw [ConnectionPool.connectionCount, ConnectionPool.pooled, AList.keys, List.keys,
        List.length_map, List.length_map]
    rw [List.length_append, List.length_append, List.length_range] at hlength
    rw [hcount, hlength]

/-- Two calls that both find nothing. -/
def overlapping : List (Event Nat) :=
  [.getConnection 7, .getConnection 7, .connect 0 (.ok ()), .connect 1 (.ok ()),
    .insert 0, .insert 1]

def overlapped : Callers Nat where
  pool := ⟨AList.singleton 7 1⟩
  calls := [.returned 7 (.ok 0), .returned 7 (.ok 1)]
  opened := [7, 7]

theorem connections_conserved_overlapping :
    Lts.run step new overlapping = some overlapped ∧
      Lts.outputs step dropped new overlapping = [0] ∧
      (overlapped.calls.filterMap GetConnection.inHand ++ (overlapped.pool.pooled ++
        Lts.outputs step dropped new overlapping)).Perm (List.range 2) :=
  ⟨rfl, rfl, (connections_conserved (s := overlapped) rfl).2.2.1⟩

/-! ## One call at a time

While no call to an address begins during another, at most one connection to it is
pooled or on its way, since a call opens one only where it has found none. -/

/-- How many calls to an address wait for a connection. -/
def connecting (addr : Addr) (s : Callers Addr) : Nat :=
  s.calls.countP (GetConnection.isConnecting addr)

/-- How many have theirs, and have not put it in yet. -/
def connected (addr : Addr) (s : Callers Addr) : Nat :=
  s.calls.countP (GetConnection.isConnected addr)

/-- How many connections to an address are in the pool. -/
def shared (addr : Addr) (s : Callers Addr) : Nat :=
  (s.pool.connections.lookup addr).toList.length

/-- Of a connection to an address at most one is pooled or to come, and those opened
before it were removed. -/
structure Single (s : Callers Addr) (removed : List Addr) (addr : Addr) : Prop where
  one : s.connecting addr + s.connected addr + s.shared addr ≤ 1
  opened : s.opened.count addr = removed.count addr + (s.connected addr + s.shared addr)

theorem not_underWay {addr : Addr} (h : ¬ s.UnderWay addr) :
    s.connecting addr = 0 ∧ s.connected addr = 0 := by
  refine ⟨List.countP_eq_zero.mpr ?_, List.countP_eq_zero.mpr ?_⟩
  · intro call hcall hconnecting
    exact h ⟨call, hcall, Or.inl hconnecting⟩
  · intro call hcall hconnected
    exact h ⟨call, hcall, Or.inr hconnected⟩

section
variable {pre post : List (GetConnection Addr)} {call : GetConnection Addr}

theorem connecting_split (hcalls : s.calls = pre ++ call :: post) (addr : Addr) :
    s.connecting addr =
      (pre ++ post).countP (GetConnection.isConnecting addr)
        + if call.isConnecting addr then 1 else 0 := by
  rw [connecting, hcalls]
  exact Lts.countP_replaced _ pre post (some call)

theorem connected_split (hcalls : s.calls = pre ++ call :: post) (addr : Addr) :
    s.connected addr =
      (pre ++ post).countP (GetConnection.isConnected addr)
        + if call.isConnected addr then 1 else 0 := by
  rw [connected, hcalls]
  exact Lts.countP_replaced _ pre post (some call)

end

/-- Nothing has changed for the address. -/
theorem Single.congr {removed removed' : List Addr} {addr : Addr} (h : Single s removed addr)
    (hconnecting : s'.connecting addr = s.connecting addr)
    (hconnected : s'.connected addr = s.connected addr)
    (hshared : s'.shared addr = s.shared addr)
    (hopened : s'.opened.count addr = s.opened.count addr)
    (hremoved : removed'.count addr = removed.count addr) : Single s' removed' addr where
  one := by
    rw [hconnecting, hconnected, hshared]
    exact h.one
  opened := by
    rw [hopened, hremoved, hconnected, hshared]
    exact h.opened

theorem Single.step {removed : List Addr} {addr : Addr} (h : Single s removed addr)
    (halone : Alone s event) (hstep : step s event = some s') :
    Single s' (removed ++ forgotten s event) addr := by
  have hone := h.one
  have hopened := h.opened
  cases step_takes hstep with
  | @hit a conn hlookup =>
      show Single _ (removed ++ []) addr
      rw [List.append_nil]
      refine h.congr ?_ ?_ rfl rfl rfl
      · simp [connecting, GetConnection.isConnecting]
      · simp [connected, GetConnection.isConnected]
  | @miss a hlookup =>
      show Single _ (removed ++ []) addr
      rw [List.append_nil]
      have hconnected : connected addr { s with calls := s.calls ++ [.connecting a] } =
          s.connected addr := by
        simp [connected, GetConnection.isConnected]
      by_cases ha : a = addr
      · -- nothing was under way, and now the call is
        obtain ⟨hconnecting, hnone⟩ := not_underWay halone
        rw [ha] at hconnecting hnone
        refine ⟨?_, by rw [hconnected]; exact hopened⟩
        have hshared : s.shared addr = 0 := by
          rw [shared, ← ha, hlookup]
          rfl
        have hcall : connecting addr { s with calls := s.calls ++ [.connecting a] } =
            s.connecting addr + 1 := by
          simp [connecting, GetConnection.isConnecting, ha]
        rw [hcall, hconnected, hconnecting, hnone]
        exact Nat.le_of_eq (congrArg (0 + 1 + 0 + ·) hshared)
      · refine h.congr ?_ hconnected rfl rfl rfl
        simp [connecting, GetConnection.isConnecting, ha]
  | @opens i a pre post hcalls =>
      show Single _ (removed ++ []) addr
      rw [List.append_nil]
      rw [connecting_split hcalls, connected_split hcalls] at hone
      rw [connected_split hcalls] at hopened
      simp only [GetConnection.isConnecting, GetConnection.isConnected, decide_eq_true_eq,
        Bool.false_eq_true, if_false] at hone hopened
      refine ⟨?_, ?_⟩
      · rw [connecting_split rfl, connected_split rfl]
        show _ + _ + s.shared addr ≤ 1
        simp only [GetConnection.isConnecting, GetConnection.isConnected, decide_eq_true_eq,
          Bool.false_eq_true, if_false]
        omega
      · rw [connected_split rfl, List.count_append, List.count_singleton, hopened]
        show _ = _ + (_ + s.shared addr)
        simp only [GetConnection.isConnected, beq_iff_eq, decide_eq_true_eq]
        omega
  | @fails i e a pre post hcalls =>
      show Single _ (removed ++ []) addr
      rw [List.append_nil]
      rw [connecting_split hcalls, connected_split hcalls] at hone
      rw [connected_split hcalls] at hopened
      refine ⟨?_, ?_⟩
      · rw [connecting_split rfl, connected_split rfl]
        show _ + _ + s.shared addr ≤ 1
        simp only [GetConnection.isConnecting, GetConnection.isConnected,
          Bool.false_eq_true, if_false] at hone ⊢
        omega
      · rw [connected_split rfl, hopened]
        rfl
  | @inserts i a conn pre post hcalls hdropped =>
      show Single _ (removed ++ []) addr
      rw [List.append_nil]
      rw [connecting_split hcalls, connected_split hcalls] at hone
      rw [connected_split hcalls] at hopened
      by_cases ha : a = addr
      · -- the pool had none, since one was to come
        have hshared : shared addr { s with
            pool := ⟨s.pool.connections.insert a conn⟩
            calls := pre ++ .returned a (.ok conn) :: post } = 1 := by
          rw [shared, ← ha, AList.lookup_insert]
          rfl
        simp only [GetConnection.isConnecting, GetConnection.isConnected, ha, decide_true,
          Bool.false_eq_true, if_false, if_true] at hone hopened
        refine ⟨?_, ?_⟩
        · rw [connecting_split rfl, connected_split rfl, hshared]
          simp only [GetConnection.isConnecting, GetConnection.isConnected,
            Bool.false_eq_true, if_false]
          omega
        · rw [connected_split rfl, hshared]
          simp only [GetConnection.isConnected, Bool.false_eq_true, if_false]
          omega
      · have hshared : shared addr { s with
            pool := ⟨s.pool.connections.insert a conn⟩
            calls := pre ++ .returned a (.ok conn) :: post } = s.shared addr := by
          rw [shared, AList.lookup_insert_ne (Ne.symm ha)]
          rfl
        refine h.congr ?_ ?_ hshared rfl rfl
        · rw [connecting_split rfl, connecting_split hcalls]
          rfl
        · rw [connected_split rfl, connected_split hcalls]
          simp only [GetConnection.isConnected, ha, decide_false, Bool.false_eq_true, if_false]
  | @removes a =>
      by_cases ha : a = addr
      · have hshared : shared addr { s with pool := s.pool.removeConnection a } = 0 := by
          rw [shared, ConnectionPool.removeConnection, ← ha, AList.lookup_erase]
          rfl
        have hremoved : (forgotten s (.removeConnection a)).count addr = s.shared addr := by
          rw [forgotten, ha, shared]
          cases s.pool.connections.lookup addr with
          | none => rfl
          | some conn => exact List.count_singleton_self
        refine ⟨?_, ?_⟩
        · rw [hshared]
          exact Nat.le_trans (Nat.le_add_right _ _) hone
        · rw [hshared, List.count_append, hremoved]
          show s.opened.count addr = _ + s.shared addr + (s.connected addr + 0)
          omega
      · refine h.congr rfl rfl ?_ rfl ?_
        · rw [shared, ConnectionPool.removeConnection, AList.lookup_erase_ne (Ne.symm ha)]
          rfl
        · have hremoved : (forgotten s (.removeConnection a)).count addr = 0 := by
            rw [forgotten]
            cases s.pool.connections.lookup a with
            | none => rfl
            | some conn => exact List.count_eq_zero.mpr (mt List.mem_singleton.mp (Ne.symm ha))
          rw [List.count_append, hremoved, Nat.add_zero]

theorem single_new (addr : Addr) : Single (new : Callers Addr) [] addr := ⟨Nat.zero_le 1, rfl⟩

theorem single_of_run (h : Lts.run step new events = some s)
    (halone : Lts.Guarded step Alone new events) (addr : Addr) :
    Single s (Lts.outputs step forgotten new events) addr :=
  Lts.Guarded.collects (fun s removed => Single s removed addr)
    (fun hs ha hstep => hs.step ha hstep) (single_new addr) halone h

/-- What is there once is in one place. -/
theorem eq_of_count_le_one {l : List Addr} {a : Addr} (h : l.count a ≤ 1) {n m : Nat}
    (hn : l[n]? = some a) (hm : l[m]? = some a) : n = m := by
  obtain ⟨hn', hgetn⟩ := List.getElem?_eq_some_iff.mp hn
  obtain ⟨hm', hgetm⟩ := List.getElem?_eq_some_iff.mp hm
  have honce : ¬ List.Duplicate a l := by
    intro htwice
    exact Nat.not_succ_le_self 1 ((List.duplicate_iff_two_le_count.mp htwice).trans h)
  rcases Nat.lt_trichotomy n m with hlt | heq | hgt
  · exact absurd (List.duplicate_iff_exists_distinct_get.mpr
      ⟨⟨n, hn'⟩, ⟨m, hm'⟩, hlt, hgetn.symm, hgetm.symm⟩) honce
  · exact heq
  · exact absurd (List.duplicate_iff_exists_distinct_get.mpr
      ⟨⟨m, hm'⟩, ⟨n, hn'⟩, hgt, hgetm.symm, hgetn.symm⟩) honce

/-- **One call at a time**: of the connections to an address all were removed but the
one that is pooled or about to be, and as long as none is removed its callers share
one. -/
theorem callers_share (h : Lts.run step new events = some s)
    (halone : Lts.Guarded step Alone new events) (addr : Addr) :
    s.opened.count addr = (Lts.outputs step forgotten new events).count addr
        + (s.connected addr + s.shared addr) ∧
      s.connected addr + s.shared addr ≤ 1 ∧
      (addr ∉ Lts.outputs step forgotten new events →
        ∀ conn conn', .returned addr (.ok conn) ∈ s.calls →
          .returned addr (.ok conn') ∈ s.calls → conn = conn') := by
  have hsingle := single_of_run h halone addr
  have hsound := sound_of_run h
  have hone : s.connected addr + s.shared addr ≤ 1 := by
    have hall := hsingle.one
    omega
  refine ⟨hsingle.opened, hone, ?_⟩
  intro hkept conn conn' hconn hconn'
  have hcount : s.opened.count addr ≤ 1 := by
    rw [hsingle.opened, List.count_eq_zero.mpr hkept, Nat.zero_add]
    exact hone
  exact eq_of_count_le_one hcount (hsound.calls _ hconn (addr, conn) rfl)
    (hsound.calls _ hconn' (addr, conn') rfl)

/-- A call that begins when the first has returned. -/
def inTurn : List (Event Nat) :=
  [.getConnection 7, .connect 0 (.ok ()), .insert 0, .getConnection 7]

def served : Callers Nat where
  pool := ⟨AList.singleton 7 0⟩
  calls := [.returned 7 (.ok 0), .returned 7 (.ok 0)]
  opened := [7]

theorem callers_share_inTurn :
    Lts.run step new inTurn = some served ∧ Lts.Guarded step Alone new inTurn ∧
      served.opened.count 7 = (Lts.outputs step forgotten new inTurn).count 7
        + (served.connected 7 + served.shared 7) :=
  ⟨rfl, by decide, (callers_share (s := served) rfl (by decide) 7).1⟩

end Callers

end

end Dolda.Protocol
