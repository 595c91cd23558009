/-
# `Dolda.Health` — the health of the components

`HealthServer` of `src/health.rs`: a list of components, to which a registration adds
an entry at the end, while an update writes the first entry of its name.  What the
server answers is the worst status in the list.

Of a name the history of the calls says more: its status is that of the last update
since its first registration (`latest`).  The entries show it, each but the ones whose
name has an entry before them; those no update reaches, and they stay unknown
(`Shows`).  So the answer is the worst of the latest statuses exactly where no name has
been registered twice, or some name is unknown anyway (`health_worst_iff`).
-/
import Mathlib.Data.List.Dedup
import Mathlib.Data.List.MinMax
import Mathlib.Data.List.TakeWhile

namespace Dolda.Health

inductive HealthStatus
  | healthy
  | degraded
  | unhealthy
  | unknown
deriving DecidableEq, Repr

/-- The key `get_health` takes the maximum by. -/
def HealthStatus.severity : HealthStatus → Nat
  | .healthy => 0
  | .degraded => 1
  | .unhealthy => 2
  | .unknown => 3

structure ComponentHealth where
  name : String
  status : HealthStatus
  message : String
  lastCheckUs : Nat
deriving DecidableEq, Repr

structure SystemHealth where
  status : HealthStatus
  uptimeSeconds : Nat
  components : List ComponentHealth
  version : String
deriving DecidableEq, Repr

/-- Instants are in nanoseconds of the clock the server reads. -/
structure HealthServer where
  startTime : Nat
  components : List ComponentHealth
  version : String
deriving DecidableEq, Repr

namespace HealthServer

def new (version : String) (now : Nat) : HealthServer :=
  { startTime := now, components := [], version }

def registerComponent (server : HealthServer) (name : String) : HealthServer :=
  { server with
    components := server.components ++
      [{ name, status := .unknown, message := "Not yet checked", lastCheckUs := 0 }] }

/-- Write to the first component of the name. -/
def writeFirst (name : String) (status : HealthStatus) (message : String) (nowUs : Nat) :
    List ComponentHealth → List ComponentHealth
  | [] => []
  | c :: cs =>
      if c.name = name then
        { c with status, message, lastCheckUs := nowUs } :: cs
      else
        c :: writeFirst name status message nowUs cs

/-- `now_us` is what the system clock shows. -/
def updateComponent (server : HealthServer) (name : String) (status : HealthStatus)
    (message : String) (nowUs : Nat) : HealthServer :=
  { server with components := writeFirst name status message nowUs server.components }

/-- Of several maxima `max_by_key` takes the last; here they are all the same status. -/
def getHealth (server : HealthServer) (now : Nat) : SystemHealth where
  status := ((server.components.map (·.status)).argmax HealthStatus.severity).getD .unknown
  uptimeSeconds := (now - server.startTime) / 1000000000
  components := server.components
  version := server.version

end HealthServer

/-! ## The calls

One call more: a registered name has the status the call gives it, or keeps its own.  A
registration gives no name a status, and an update none to another name. -/

inductive Call
  | register (name : String)
  | update (name : String) (status : HealthStatus) (message : String) (nowUs : Nat)
deriving DecidableEq, Repr

namespace Call

def registers : Call → Option String
  | .register name => some name
  | .update _ _ _ _ => none

/-- The status the call gives the name, if it updates it. -/
def updates (name : String) : Call → Option HealthStatus
  | .register _ => none
  | .update updated status _ _ => if updated = name then some status else none

end Call

def step (server : HealthServer) : Call → HealthServer
  | .register name => server.registerComponent name
  | .update name status message nowUs => server.updateComponent name status message nowUs

def run (server : HealthServer) (calls : List Call) : HealthServer :=
  calls.foldl step server

/-- The names registered, in order. -/
def registered (calls : List Call) : List String :=
  calls.filterMap Call.registers

/-- The calls after the first that registers the name. -/
def sinceRegistered (name : String) (calls : List Call) : List Call :=
  (calls.dropWhile (fun call => decide (call.registers ≠ some name))).tail

/-- The latest status of a name. -/
def latest (calls : List Call) (name : String) : HealthStatus :=
  ((sinceRegistered name calls).filterMap (Call.updates name)).getLast?.getD .unknown

section
variable {calls : List Call} {name : String}

@[simp] theorem registered_concat (call : Call) :
    registered (calls ++ [call]) = registered calls ++ call.registers.toList := by
  rw [registered, List.filterMap_append]
  cases call <;> rfl

theorem dropWhile_eq_nil :
    calls.dropWhile (fun call => decide (call.registers ≠ some name)) = [] ↔
      name ∉ registered calls := by
  simp only [List.dropWhile_eq_nil_iff, decide_eq_true_eq, registered, List.mem_filterMap,
    not_exists, not_and, ne_eq]

theorem sinceRegistered_concat (call : Call) :
    sinceRegistered name (calls ++ [call]) =
      if name ∈ registered calls then sinceRegistered name calls ++ [call] else [] := by
  rw [sinceRegistered, List.dropWhile_append]
  by_cases h : name ∈ registered calls
  · have hne := mt dropWhile_eq_nil.mp (not_not_intro h)
    rw [if_neg (mt List.isEmpty_iff.mp hne), if_pos h, List.tail_append_of_ne_nil hne]
    rfl
  · rw [if_pos (List.isEmpty_iff.mpr (dropWhile_eq_nil.mpr h)), if_neg h]
    by_cases hcall : call.registers = some name <;> simp [hcall]

theorem latest_of_not_registered (h : name ∉ registered calls) : latest calls name = .unknown := by
  rw [latest, sinceRegistered, dropWhile_eq_nil.mpr h]
  rfl

/-- One call more: a registered name has the status the call gives it, or keeps its own. -/
theorem latest_concat (call : Call) :
    latest (calls ++ [call]) name =
      if name ∈ registered calls then (call.updates name).getD (latest calls name)
      else .unknown := by
  rw [latest, sinceRegistered_concat]
  by_cases h : name ∈ registered calls
  · rw [if_pos h, if_pos h, List.filterMap_append, List.getLast?_append]
    cases hupdates : call.updates name <;> simp [hupdates, latest]
  · rw [if_neg h, if_neg h]
    rfl

theorem latest_register (other : String) :
    latest (calls ++ [.register other]) name = latest calls name := by
  rw [latest_concat]
  by_cases h : name ∈ registered calls
  · rw [if_pos h]
    rfl
  · rw [if_neg h, latest_of_not_registered h]

theorem latest_update_of_ne {updated : String} (hne : updated ≠ name) (status : HealthStatus)
    (message : String) (nowUs : Nat) :
    latest (calls ++ [.update updated status message nowUs]) name = latest calls name := by
  rw [latest_concat]
  by_cases h : name ∈ registered calls
  · rw [if_pos h, Call.updates, if_neg hne]
    rfl
  · rw [if_neg h, latest_of_not_registered h]

theorem latest_update (h : name ∈ registered calls) (status : HealthStatus) (message : String)
    (nowUs : Nat) : latest (calls ++ [.update name status message nowUs]) name = status := by
  rw [latest_concat, if_pos h, Call.updates, if_pos rfl]
  rfl

end

/-! ## What the entries show

A registered name shows unknown, the first time because nothing else is known of it; an
update reaches the first entry of its name.  So a name's first entry shows its latest
status, and the second unknown. -/

/-- Each entry shows the latest status of its name, or unknown if the name has been
seen. -/
def Shows (latest : String → HealthStatus) : List String → List ComponentHealth → Prop
  | _, [] => True
  | seen, c :: cs =>
      c.status = (if c.name ∈ seen then .unknown else latest c.name) ∧
        Shows latest (c.name :: seen) cs

section
variable {latest' latest : String → HealthStatus} {seen : List String}
  {components : List ComponentHealth} {name : String}

theorem Shows.congr (h : Shows latest seen components)
    (heq : ∀ n ∉ seen, latest' n = latest n) : Shows latest' seen components := by
  induction components generalizing seen with
  | nil => trivial
  | cons c cs ih =>
      refine ⟨?_, ih h.2 (fun n hn => heq n (mt (List.mem_cons_of_mem _) hn))⟩
      rw [h.1]
      by_cases hseen : c.name ∈ seen
      · rw [if_pos hseen, if_pos hseen]
      · rw [if_neg hseen, if_neg hseen, heq c.name hseen]

theorem Shows.concat (h : Shows latest seen components) {c : ComponentHealth}
    (hstatus : c.status = .unknown)
    (hnew : c.name ∉ seen → c.name ∉ components.map (·.name) → latest c.name = .unknown) :
    Shows latest seen (components ++ [c]) := by
  induction components generalizing seen with
  | nil =>
      refine ⟨?_, trivial⟩
      by_cases hseen : c.name ∈ seen
      · rw [if_pos hseen, hstatus]
      · rw [if_neg hseen, hstatus, hnew hseen (List.not_mem_nil)]
  | cons d ds ih =>
      refine ⟨h.1, ih h.2 (fun hseen hnames => hnew ?_ ?_)⟩
      · exact mt (List.mem_cons_of_mem _) hseen
      · exact fun hmem => (List.mem_cons.mp hmem).elim
          (fun heq => hseen (heq ▸ List.mem_cons_self)) hnames

open HealthServer in
theorem Shows.writeFirst (h : Shows latest seen components) (hname : name ∉ seen)
    (heq : ∀ n, n ≠ name → latest' n = latest n) {status : HealthStatus}
    (hstatus : name ∈ components.map (·.name) → latest' name = status)
    (message : String) (nowUs : Nat) :
    Shows latest' seen (writeFirst name status message nowUs components) := by
  induction components generalizing seen with
  | nil => trivial
  | cons c cs ih =>
      rw [HealthServer.writeFirst]
      by_cases hc : c.name = name
      · rw [if_pos hc]
        refine ⟨?_, h.2.congr (fun n hn => heq n ?_)⟩
        · rw [if_neg (hc ▸ hname), hc, hstatus (List.mem_map.mpr ⟨c, List.mem_cons_self, hc⟩)]
        · rintro rfl
          exact hn (hc ▸ List.mem_cons_self)
      · rw [if_neg hc]
        refine ⟨?_, ih h.2 ?_ (fun hmem => hstatus (List.mem_cons_of_mem _ hmem))⟩
        · rw [h.1, heq c.name hc]
        · exact fun hmem => (List.mem_cons.mp hmem).elim (fun heq => hc heq.symm) hname

/-- Only entries of a name seen before show something else than its latest status. -/
theorem Shows.statuses (h : Shows latest seen components)
    (hnodup : (components.map (·.name)).Nodup) (hseen : ∀ n ∈ components.map (·.name), n ∉ seen) :
    components.map (·.status) = (components.map (·.name)).map latest := by
  induction components generalizing seen with
  | nil => rfl
  | cons c cs ih =>
      obtain ⟨hc, hcs⟩ := List.nodup_cons.mp hnodup
      have hnew : ∀ n ∈ cs.map (·.name), n ∉ c.name :: seen := by
        intro n hn hmem
        rcases List.mem_cons.mp hmem with rfl | hmem
        · exact hc hn
        · exact hseen n (List.mem_cons_of_mem _ hn) hmem
      have hrest := ih h.2 hcs hnew
      have hhead := h.1.trans (if_neg (hseen c.name List.mem_cons_self))
      simp only [List.map_cons, hhead, hrest]

theorem Shows.latest_mem (h : Shows latest seen components)
    (hname : name ∈ components.map (·.name)) (hseen : name ∉ seen) :
    latest name ∈ components.map (·.status) := by
  induction components generalizing seen with
  | nil => exact absurd hname List.not_mem_nil
  | cons c cs ih =>
      rcases eq_or_ne c.name name with rfl | hne
      · exact List.mem_cons.mpr (Or.inl (h.1.trans (if_neg hseen)).symm)
      · have hrest := (List.mem_cons.mp hname).resolve_left hne.symm
        exact List.mem_cons_of_mem _ (ih h.2 hrest (fun hmem =>
          (List.mem_cons.mp hmem).elim hne.symm hseen))

theorem Shows.unknown_mem (h : Shows latest seen components)
    (htwice : ¬ ((components.map (·.name)).Nodup ∧ ∀ n ∈ components.map (·.name), n ∉ seen)) :
    .unknown ∈ components.map (·.status) := by
  induction components generalizing seen with
  | nil => exact absurd ⟨List.nodup_nil, fun n hn => absurd hn List.not_mem_nil⟩ htwice
  | cons c cs ih =>
      by_cases hc : c.name ∈ seen
      · exact List.mem_cons.mpr (Or.inl (h.1.trans (if_pos hc)).symm)
      · refine List.mem_cons_of_mem _ (ih h.2 (fun hall => htwice ⟨?_, ?_⟩))
        · exact List.nodup_cons.mpr ⟨fun hmem => hall.2 _ hmem List.mem_cons_self, hall.1⟩
        · intro n hn
          rcases List.mem_cons.mp hn with rfl | hn
          · exact hc
          · exact mt (List.mem_cons_of_mem _) (hall.2 n hn)

end

/-! ## The run -/

theorem names_writeFirst (name : String) (status : HealthStatus) (message : String) (nowUs : Nat)
    (components : List ComponentHealth) :
    (HealthServer.writeFirst name status message nowUs components).map (·.name) =
      components.map (·.name) := by
  induction components with
  | nil => rfl
  | cons c cs ih =>
      rw [HealthServer.writeFirst]
      by_cases hc : c.name = name
      · rw [if_pos hc]
        rfl
      · rw [if_neg hc, List.map_cons, List.map_cons, ih]

/-- The components after some calls. -/
structure Tracks (calls : List Call) (components : List ComponentHealth) : Prop where
  names : components.map (·.name) = registered calls
  shows : Shows (latest calls) [] components

theorem Tracks.step {calls : List Call} {server : HealthServer}
    (h : Tracks calls server.components) (call : Call) :
    Tracks (calls ++ [call]) (step server call).components := by
  cases call with
  | register name =>
      refine ⟨?_, ?_⟩
      · rw [registered_concat, ← h.names]
        exact List.map_append
      · have hlatest : Shows (latest (calls ++ [.register name])) [] server.components :=
          h.shows.congr (fun n _ => latest_register name)
        refine hlatest.concat rfl (fun _ hnew => ?_)
        rw [latest_register, latest_of_not_registered (h.names ▸ hnew)]
  | update name status message nowUs =>
      refine ⟨?_, h.shows.writeFirst List.not_mem_nil ?_ ?_ message nowUs⟩
      · rw [registered_concat, ← h.names]
        exact (names_writeFirst ..).trans (List.append_nil _).symm
      · exact fun n hne => latest_update_of_ne hne.symm status message nowUs
      · exact fun hmem => latest_update (h.names ▸ hmem) status message nowUs

theorem tracks_run (version : String) (startTime : Nat) (calls : List Call) :
    Tracks calls (run (.new version startTime) calls).components := by
  induction calls using List.reverseRecOn with
  | nil => exact ⟨rfl, trivial⟩
  | append_singleton calls call ih =>
      rw [run, List.foldl_concat]
      exact ih.step call

/-! ## The worst status -/

/-- No status of the list is worse; of no status at all the worst is unknown. -/
def IsWorst (status : HealthStatus) (statuses : List HealthStatus) : Prop :=
  (statuses = [] ∧ status = .unknown) ∨
    (status ∈ statuses ∧ ∀ other ∈ statuses, other.severity ≤ status.severity)

instance (status : HealthStatus) (statuses : List HealthStatus) :
    Decidable (IsWorst status statuses) :=
  inferInstanceAs (Decidable (_ ∨ _))

theorem HealthStatus.severity_le_unknown (status : HealthStatus) :
    status.severity ≤ HealthStatus.severity .unknown := by
  cases status <;> decide

theorem HealthStatus.eq_unknown {status : HealthStatus}
    (h : HealthStatus.severity .unknown ≤ status.severity) : status = .unknown := by
  cases status <;> first | rfl | exact absurd h (by decide)

section
variable {status : HealthStatus} {statuses : List HealthStatus}

theorem isWorst_unknown (h : .unknown ∈ statuses) : IsWorst .unknown statuses :=
  Or.inr ⟨h, fun other _ => other.severity_le_unknown⟩

theorem IsWorst.eq_unknown (hworst : IsWorst status statuses) (h : .unknown ∈ statuses) :
    status = .unknown := by
  rcases hworst with ⟨-, hstatus⟩ | ⟨-, hmax⟩
  · exact hstatus
  · exact HealthStatus.eq_unknown (hmax _ h)

end

/-- `get_health` answers the worst status of the entries. -/
theorem HealthServer.getHealth_worst (server : HealthServer) (now : Nat) :
    IsWorst (server.getHealth now).status (server.components.map (·.status)) := by
  cases hmax : (server.components.map (·.status)).argmax HealthStatus.severity with
  | none =>
      have hstatus : (server.getHealth now).status = .unknown := by
        rw [getHealth, hmax]
        rfl
      exact Or.inl ⟨List.argmax_eq_none.mp hmax, hstatus⟩
  | some status =>
      have hstatus : (server.getHealth now).status = status := by
        rw [getHealth, hmax]
        rfl
      rw [hstatus]
      exact Or.inr ⟨List.argmax_mem hmax, fun other hother => List.le_of_mem_argmax hother hmax⟩

/-- **When the health is the worst of the latest.**  After any calls the status the
server answers is the worst of the latest statuses of the names registered, each name
taken once, just where no name was registered twice or the latest status of one is
unknown; of nothing registered it is unknown. -/
theorem health_worst_iff (version : String) (startTime now : Nat) (calls : List Call) :
    IsWorst ((run (.new version startTime) calls).getHealth now).status
        ((registered calls).dedup.map (latest calls)) ↔
      (registered calls).Nodup ∨ ∃ name ∈ registered calls, latest calls name = .unknown := by
  obtain ⟨hnames, hshows⟩ := tracks_run version startTime calls
  have hworst := (run (.new version startTime) calls).getHealth_worst now
  constructor
  · intro h
    by_contra hnot
    obtain ⟨htwice, hknown⟩ := not_or.mp hnot
    -- A second entry makes the answer unknown, which no name is.
    have hunknown := hworst.eq_unknown (hshows.unknown_mem (fun hall => htwice (hnames ▸ hall.1)))
    rw [hunknown] at h
    rcases h with ⟨hnil, -⟩ | ⟨hmem, -⟩
    · rw [List.map_eq_nil_iff, List.dedup_eq_nil] at hnil
      exact htwice (hnil ▸ List.nodup_nil)
    · obtain ⟨name, hname, hlatest⟩ := List.mem_map.mp hmem
      exact hknown ⟨name, List.mem_dedup.mp hname, hlatest⟩
  · rintro (hnodup | ⟨name, hname, hlatest⟩)
    · have hstatuses := hshows.statuses (hnames ▸ hnodup) (fun n _ => List.not_mem_nil)
      rwa [hstatuses, hnames, ← hnodup.dedup] at hworst
    · have hmem := hshows.latest_mem (hnames ▸ hname) List.not_mem_nil
      rw [hworst.eq_unknown (hlatest ▸ hmem)]
      exact isWorst_unknown (List.mem_map.mpr ⟨name, List.mem_dedup.mpr hname, hlatest⟩)

/-- A component that is registered again and then checked. -/
def registeredTwice : List Call :=
  [.register "db", .register "db", .update "db" .healthy "Good" 1700000000000000]

theorem registered_twice_unknown :
    ((run (.new "1.0.0" 0) registeredTwice).getHealth 0).status = .unknown ∧
      (registered registeredTwice).dedup.map (latest registeredTwice) = [.healthy] ∧
      ¬ IsWorst ((run (.new "1.0.0" 0) registeredTwice).getHealth 0).status
        ((registered registeredTwice).dedup.map (latest registeredTwice)) := by
  decide

end Dolda.Health
