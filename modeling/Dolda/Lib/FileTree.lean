/-
# `Dolda.Lib.FileTree` — directories and files, and the paths to them

A tree says what is at each place, a place being the names from the leaf up to
the root.  A path is followed step by step from a directory (`walk`); `mkdir`
makes the last directory of a path, and `createDirAll` those before it as well,
where they are missing, from the first one that is on.  What the system does not
permit is a parameter, `refuses`, at the places where something would be made.

    what is there stays            (`Grows`, `createDirAll_grows`)
    a path that leads somewhere    makes nothing  (`createDirAll_of_walk`)
    something is made              iff the first missing directory can be
                                   (`createDirAll_eq_iff`)
    all are made                   iff each missing one can be
                                   (`createDirAll_ok_iff`)
    below a directory              nothing outside of it is made
                                   (`createDirAll_made`)
-/
import Mathlib.Data.List.Basic
import Mathlib.Data.List.Infix
import Mathlib.Data.Set.List
import Mathlib.Logic.Function.Basic

namespace FileTree

inductive Entry (α : Type*) where
  | dir
  | file (content : α)
deriving DecidableEq

/-- What is at each place. -/
abbrev Tree (ν α : Type*) := List ν → Option (Entry α)

inductive Step (ν : Type*) where
  | up
  | down (name : ν)
deriving DecidableEq

inductive Failure where
  | notFound
  | notDirectory
  | present
  | refused (message : String)
deriving DecidableEq

variable {ν α : Type*} [DecidableEq ν]

/-- Something put at a place. -/
def Tree.insert (t : Tree ν α) (place : List ν) (entry : Entry α) : Tree ν α :=
  Function.update t place (some entry)

/-- Every entry is in a directory. -/
structure Tree.WellFormed (t : Tree ν α) : Prop where
  root : t [] = some .dir
  housed : ∀ n p, t (n :: p) ≠ none → t p = some .dir

/-! ## Paths -/

/-- The directory that a path leads to, its last step first. -/
def walk (t : Tree ν α) (start : List ν) : List (Step ν) → Except Failure (List ν)
  | [] => .ok start
  | .up :: path =>
      match walk t start path with
      | .error e => .error e
      | .ok p => .ok p.tail
  | .down n :: path =>
      match walk t start path with
      | .error e => .error e
      | .ok p =>
          match t (n :: p) with
          | none => .error .notFound
          | some (.file _) => .error .notDirectory
          | some .dir => .ok (n :: p)

/-- The first place on the way where there is nothing. -/
def missing (t : Tree ν α) (start : List ν) : List (Step ν) → Option (List ν)
  | [] => none
  | step :: path =>
      match walk t start path, step with
      | .error _, _ => missing t start path
      | .ok _, .up => none
      | .ok p, .down n => if (t (n :: p)).isNone then some (n :: p) else none

section
variable (refuses : List ν → Option String)

/-- Make the last directory of a path. -/
def mkdir (t : Tree ν α) (start : List ν) : List (Step ν) → Except Failure Unit × Tree ν α
  | [] => (.error .present, t)
  | .up :: path =>
      match walk t start (.up :: path) with
      | .error e => (.error e, t)
      | .ok _ => (.error .present, t)
  | .down n :: path =>
      match walk t start path with
      | .error e => (.error e, t)
      | .ok p =>
          match t (n :: p) with
          | some _ => (.error .present, t)
          | none =>
              match refuses (n :: p) with
              | some e => (.error (.refused e), t)
              | none => (.ok (), t.insert (n :: p) .dir)

/-- What is there as a directory need not be made. -/
def settle (start : List ν) (path : List (Step ν)) :
    Except Failure Unit × Tree ν α → Except Failure Unit × Tree ν α
  | (.ok (), t) => (.ok (), t)
  | (.error e, t) =>
      match walk t start path with
      | .ok _ => (.ok (), t)
      | .error _ => (.error e, t)

/-- Make the last directory of a path, and those before it. -/
def ensure (t : Tree ν α) (start : List ν) : List (Step ν) → Except Failure Unit × Tree ν α
  | [] => (.ok (), t)
  | step :: path =>
      match mkdir refuses t start (step :: path) with
      | (.error .notFound, _) =>
          match ensure t start path with
          | (.error e, t) => (.error e, t)
          | (.ok (), t) => settle start (step :: path) (mkdir refuses t start (step :: path))
      | result => settle start (step :: path) result

end

/-! ## Growing

What was made is there after more was made, and what is missing stays missing where
something is replaced: only the new entry is new. -/

/-- What is there stays. -/
def Tree.Grows (t t' : Tree ν α) : Prop := ∀ p e, t p = some e → t' p = some e

section
variable {refuses : List ν → Option String} {t t' t'' : Tree ν α} {start p q : List ν} {n : ν}
  {step : Step ν} {path : List (Step ν)} {result : Except Failure Unit}

omit [DecidableEq ν] in
theorem Tree.Grows.refl (t : Tree ν α) : t.Grows t := fun _ _ h => h

omit [DecidableEq ν] in
theorem Tree.Grows.trans (h : t.Grows t') (h' : t'.Grows t'') : t.Grows t'' :=
  fun p e hp => h' p e (h p e hp)

omit [DecidableEq ν] in
theorem Tree.Grows.ne (h : t.Grows t') (h' : t'.Grows t'') (hne : t' ≠ t) : t'' ≠ t := by
  rintro rfl
  refine hne (funext fun p => ?_)
  cases hp : t' p with
  | some e => exact (h' p e hp).symm
  | none =>
      cases hp' : t'' p with
      | none => rfl
      | some e => cases hp.symm.trans (h p e hp')

@[simp] theorem Tree.insert_self (e : Entry α) : t.insert p e p = some e :=
  Function.update_self ..

theorem Tree.insert_of_ne (h : q ≠ p) (e : Entry α) : t.insert p e q = t q :=
  Function.update_of_ne h ..

theorem Tree.insert_eq_none (h : t p ≠ none) (hq : t q = none) (e : Entry α) :
    t.insert p e q = none := by
  have hne : q ≠ p := by
    rintro rfl
    exact h hq
  rw [Tree.insert_of_ne hne, hq]

theorem Tree.insert_made_iff {inside : List ν → Prop} (h : t p = none) (e : Entry α) :
    (∀ q, t q = none → t.insert p e q ≠ none → inside q) ↔ inside p := by
  constructor
  · intro hall
    refine hall p h ?_
    rw [Tree.insert_self]
    exact Option.some_ne_none e
  · intro hin q hq hmade
    by_cases hne : q = p
    · exact hne ▸ hin
    · rw [Tree.insert_of_ne hne] at hmade
      exact absurd hq hmade

theorem Tree.grows_insert (h : t p = none) (e : Entry α) : t.Grows (t.insert p e) := by
  intro q e' hq
  have hne : q ≠ p := by
    rintro rfl
    cases h.symm.trans hq
  rw [Tree.insert_of_ne hne, hq]

theorem Tree.insert_ne (h : t p = none) (e : Entry α) : t.insert p e ≠ t := by
  intro heq
  have hp := Tree.insert_self (t := t) (p := p) e
  rw [heq, h] at hp
  cases hp

/-! ## Following a path

Where a path leads it leads when more is there, and where a file is in the way it stays
there; beyond an error, or beyond what is missing, it leads nowhere.  A directory is
where its names lead. -/

omit [DecidableEq ν]

theorem walk_cons_error {e : Failure} (h : walk t start path = .error e) (step : Step ν) :
    walk t start (step :: path) = .error e := by
  cases step with
  | up => simp only [walk, h]
  | down n => simp only [walk, h]

theorem walk_error {e : Failure} (h : walk t start path = .error e) :
    e = .notFound ∨ e = .notDirectory := by
  induction path with
  | nil => cases h
  | cons step path ih =>
      cases hpath : walk t start path with
      | error e' =>
          rw [walk_cons_error hpath] at h
          cases h
          exact ih hpath
      | ok p =>
          cases step with
          | up =>
              simp only [walk, hpath] at h
              cases h
          | down n =>
              simp only [walk, hpath] at h
              split at h
              · cases h
                exact Or.inl rfl
              · cases h
                exact Or.inr rfl
              · cases h

theorem walk_dir (ht : t.WellFormed) (hstart : t start = some .dir)
    (h : walk t start path = .ok p) : t p = some .dir := by
  induction path generalizing p with
  | nil =>
      cases h
      exact hstart
  | cons step path ih =>
      cases hpath : walk t start path with
      | error e =>
          rw [walk_cons_error hpath] at h
          cases h
      | ok q =>
          have hq := ih hpath
          cases step with
          | up =>
              simp only [walk, hpath] at h
              cases h
              cases q with
              | nil => exact ht.root
              | cons n q => exact ht.housed n q (by rw [hq]; exact Option.some_ne_none _)
          | down n =>
              simp only [walk, hpath] at h
              split at h
              · cases h
              · cases h
              · rename_i hdir
                cases h
                exact hdir

theorem walk_grows (hgrows : t.Grows t') :
    (∀ p, walk t start path = .ok p → walk t' start path = .ok p) ∧
      (walk t start path = .error .notDirectory →
        walk t' start path = .error .notDirectory) := by
  induction path with
  | nil => exact ⟨fun p h => h, fun h => h⟩
  | cons step path ih =>
      cases hpath : walk t start path with
      | error e =>
          rw [walk_cons_error hpath]
          refine ⟨fun p h => (by cases h), ?_⟩
          intro h
          cases h
          exact walk_cons_error (ih.2 hpath) step
      | ok q =>
          have hpath' := ih.1 q hpath
          cases step with
          | up => simp only [walk, hpath, hpath', imp_self, implies_true, and_self]
          | down n =>
              simp only [walk, hpath, hpath']
              cases hn : t (n :: q) with
              | none => exact ⟨fun p h => (by cases h), fun h => (by cases h)⟩
              | some e =>
                  rw [hgrows _ _ hn]
                  exact ⟨fun p h => h, fun h => h⟩

theorem walk_downs {base : List (Step ν)} {b : List ν} (hbase : walk t start base = .ok b)
    {names : List ν} (h : walk t start (names.map .down ++ base) = .ok p) : p = names ++ b := by
  induction names generalizing p with
  | nil =>
      cases hbase.symm.trans h
      rfl
  | cons n names ih =>
      cases hpath : walk t start (names.map .down ++ base) with
      | error e =>
          have herror : walk t start (.down n :: (names.map .down ++ base)) = .error e :=
            walk_cons_error hpath _
          cases herror.symm.trans h
      | ok q =>
          have h : walk t start (.down n :: (names.map .down ++ base)) = .ok p := h
          simp only [walk, hpath] at h
          split at h
          · cases h
          · cases h
          · cases h
            rw [ih hpath]
            rfl

theorem walk_names {names : List ν} (h : walk t start (names.map .down) = .ok p) :
    p = names ++ start := by
  rw [← List.append_nil (names.map Step.down)] at h
  exact walk_downs rfl h

theorem walk_of_dir (ht : t.WellFormed) {names : List ν} (h : t (names ++ start) = some .dir) :
    walk t start (names.map .down) = .ok (names ++ start) := by
  induction names with
  | nil => rfl
  | cons n names ih =>
      have hparent := ht.housed n (names ++ start) (by
        rw [← List.cons_append, h]
        exact Option.some_ne_none _)
      have h : t (n :: (names ++ start)) = some .dir := h
      simp only [List.map_cons, walk, ih hparent, h, List.cons_append]

theorem walk_of_missing (h : missing t start path = some q) :
    walk t start path = .error .notFound := by
  induction path with
  | nil => cases h
  | cons step path ih =>
      cases hpath : walk t start path with
      | error e =>
          simp only [missing, hpath] at h
          have hfound := ih h
          rw [hpath] at hfound
          rw [walk_cons_error hpath, hfound]
      | ok p =>
          cases step with
          | up =>
              simp only [missing, hpath] at h
              cases h
          | down n =>
              simp only [missing, hpath] at h
              split at h
              · rename_i hnone
                simp only [walk, hpath, Option.isNone_iff_eq_none.mp hnone]
              · cases h

end

/-! ## Making directories

`ensure` goes by what is at the end of the path before it: the directory is there, a
file is in the way, or the directories before it are made first.  Of those on the way
only the last is new after the others, and beyond what is missing nothing is made. -/

/-- What making the directory one step further than `p` comes to. -/
inductive Settled (refuses : List ν → Option String) (t : Tree ν α) (p : List ν) :
    Step ν → Except Failure Unit × Tree ν α → Prop where
  | up : Settled refuses t p .up (.ok (), t)
  | there {n : ν} : t (n :: p) = some .dir → Settled refuses t p (.down n) (.ok (), t)
  | file {n : ν} {content : α} : t (n :: p) = some (.file content) →
      Settled refuses t p (.down n) (.error .present, t)
  | refused {n : ν} {e : String} : t (n :: p) = none → refuses (n :: p) = some e →
      Settled refuses t p (.down n) (.error (.refused e), t)
  | made {n : ν} : t (n :: p) = none → refuses (n :: p) = none →
      Settled refuses t p (.down n) (.ok (), t.insert (n :: p) .dir)

section
variable {refuses : List ν → Option String} {t t' t'' : Tree ν α} {start p q b : List ν} {n : ν}
  {step : Step ν} {path base : List (Step ν)} {result : Except Failure Unit}

theorem settled (hpath : walk t start path = .ok p) :
    Settled refuses t p step
      (settle start (step :: path) (mkdir refuses t start (step :: path))) := by
  cases step with
  | up =>
      have hwalk : walk t start (.up :: path) = .ok p.tail := by simp only [walk, hpath]
      simp only [mkdir, settle, hwalk]
      exact .up
  | down n =>
      cases hn : t (n :: p) with
      | none =>
          have hwalk : walk t start (.down n :: path) = .error .notFound := by
            simp only [walk, hpath, hn]
          cases hrefuses : refuses (n :: p) with
          | none =>
              simp only [mkdir, hpath, hn, hrefuses, settle]
              exact .made hn hrefuses
          | some e =>
              simp only [mkdir, hpath, hn, hrefuses, settle, hwalk]
              exact .refused hn hrefuses
      | some entry =>
          cases entry with
          | dir =>
              have hwalk : walk t start (.down n :: path) = .ok (n :: p) := by
                simp only [walk, hpath, hn]
              simp only [mkdir, hpath, hn, settle, hwalk]
              exact .there hn
          | file content =>
              have hwalk : walk t start (.down n :: path) = .error .notDirectory := by
                simp only [walk, hpath, hn]
              simp only [mkdir, hpath, hn, settle, hwalk]
              exact .file hn

theorem mkdir_error {e : Failure} (hpath : walk t start path = .error e) :
    mkdir refuses t start (step :: path) = (.error e, t) := by
  cases step with
  | up => simp only [mkdir, walk, hpath]
  | down n => simp only [mkdir, hpath]

theorem mkdir_ne_notFound (hpath : walk t start path = .ok p) (t' : Tree ν α) :
    mkdir refuses t start (step :: path) ≠ (.error .notFound, t') := by
  cases step with
  | up => simp [mkdir, walk, hpath]
  | down n =>
      simp only [mkdir, hpath]
      split
      · simp
      split
      · simp
      · simp

theorem ensure_at (hpath : walk t start path = .ok p) :
    Settled refuses t p step (ensure refuses t start (step :: path)) := by
  rw [ensure]
  split
  · rename_i t' hmkdir
    cases mkdir_ne_notFound hpath t' hmkdir
  · exact settled hpath

theorem ensure_notDirectory (hpath : walk t start path = .error .notDirectory) (step : Step ν) :
    ensure refuses t start (step :: path) = (.error .notDirectory, t) := by
  simp only [ensure, mkdir_error hpath, settle, walk_cons_error hpath]

theorem ensure_notFound (hpath : walk t start path = .error .notFound) (step : Step ν) :
    ensure refuses t start (step :: path) =
      match ensure refuses t start path with
      | (.error e, t) => (.error e, t)
      | (.ok (), t) => settle start (step :: path) (mkdir refuses t start (step :: path)) := by
  rw [ensure, mkdir_error hpath]

theorem Settled.walk (h : Settled refuses t p step (.ok (), t'))
    (hpath : walk t start path = .ok p) : ∃ q, walk t' start (step :: path) = .ok q := by
  cases h with
  | up => exact ⟨p.tail, by simp only [FileTree.walk, hpath]⟩
  | @there n hn => exact ⟨n :: p, by simp only [FileTree.walk, hpath, hn]⟩
  | @made n hn hrefuses =>
      have hpath' := (walk_grows (Tree.grows_insert hn .dir)).1 p hpath
      have hself : t.insert (n :: p) .dir (n :: p) = some .dir := Tree.insert_self _
      exact ⟨n :: p, by simp only [FileTree.walk, hpath', hself]⟩

/-- **The directories made** lead to the last. -/
theorem ensure_ok_walk (h : ensure refuses t start path = (.ok (), t')) :
    ∃ p, walk t' start path = .ok p := by
  induction path generalizing t' with
  | nil => exact ⟨start, rfl⟩
  | cons step path ih =>
      cases hpath : walk t start path with
      | ok p =>
          have hsettled : Settled refuses t _ step (ensure refuses t start (step :: path)) :=
            ensure_at hpath
          rw [h] at hsettled
          exact hsettled.walk hpath
      | error e =>
          rcases walk_error hpath with rfl | rfl
          · rw [ensure_notFound hpath] at h
            split at h
            · cases h
            · rename_i t₁ hensure
              obtain ⟨p, hpath₁⟩ := ih hensure
              have hsettled : Settled refuses t₁ p step
                  (settle start (step :: path) (mkdir refuses t₁ start (step :: path))) :=
                settled hpath₁
              rw [h] at hsettled
              exact hsettled.walk hpath₁
          · rw [ensure_notDirectory hpath] at h
            cases h

variable (refuses) in
theorem ensure_after (hpath : walk t start path = .error .notFound) (step : Step ν) :
    (∃ e t₁, ensure refuses t start path = (.error e, t₁) ∧
      ensure refuses t start (step :: path) = (.error e, t₁)) ∨
    ∃ t₁ p, ensure refuses t start path = (.ok (), t₁) ∧ walk t₁ start path = .ok p ∧
      Settled refuses t₁ p step (ensure refuses t start (step :: path)) := by
  cases hensure : ensure refuses t start path with
  | mk result t₁ =>
      rw [ensure_notFound hpath, hensure]
      cases result with
      | error e => exact Or.inl ⟨e, t₁, rfl, rfl⟩
      | ok done =>
          obtain ⟨p, hpath₁⟩ := ensure_ok_walk hensure
          exact Or.inr ⟨t₁, p, rfl, hpath₁, settled hpath₁⟩

theorem Settled.grows {x : Except Failure Unit × Tree ν α} (h : Settled refuses t p step x) :
    t.Grows x.2 := by
  cases h with
  | up => exact .refl t
  | there hn => exact .refl t
  | file hn => exact .refl t
  | refused hn hrefuses => exact .refl t
  | made hn hrefuses => exact Tree.grows_insert hn .dir

theorem ensure_grows (refuses : List ν → Option String) (t : Tree ν α) (start : List ν)
    (path : List (Step ν)) : t.Grows (ensure refuses t start path).2 := by
  induction path with
  | nil => exact .refl t
  | cons step path ih =>
      cases hpath : walk t start path with
      | ok p => exact (ensure_at hpath).grows
      | error e =>
          rcases walk_error hpath with rfl | rfl
          · rcases ensure_after refuses hpath step with
              ⟨e, t₁, hensure, hresult⟩ | ⟨t₁, p, hensure, -, hsettled⟩
            · rw [hresult]
              rwa [hensure] at ih
            · rw [hensure] at ih
              exact ih.trans hsettled.grows
          · rw [ensure_notDirectory hpath]
            exact .refl t

theorem Tree.WellFormed.insert (h : t.WellFormed) (hp : t p = some .dir) (hn : t (n :: p) = none)
    (e : Entry α) : (t.insert (n :: p) e).WellFormed := by
  have hgrows := Tree.grows_insert hn e
  refine ⟨hgrows _ _ h.root, ?_⟩
  intro m q hmq
  by_cases hq : m :: q = n :: p
  · cases hq
    exact hgrows _ _ hp
  · rw [Tree.insert_of_ne hq] at hmq
    exact hgrows _ _ (h.housed m q hmq)

theorem Settled.wellFormed {x : Except Failure Unit × Tree ν α} (h : Settled refuses t p step x)
    (ht : t.WellFormed) (hp : t p = some .dir) : x.2.WellFormed := by
  cases h with
  | up => exact ht
  | there hn => exact ht
  | file hn => exact ht
  | refused hn hrefuses => exact ht
  | made hn hrefuses => exact ht.insert hp hn .dir

theorem ensure_wellFormed (ht : t.WellFormed) (hstart : t start = some .dir)
    (path : List (Step ν)) : (ensure refuses t start path).2.WellFormed := by
  induction path with
  | nil => exact ht
  | cons step path ih =>
      cases hpath : walk t start path with
      | ok p => exact (ensure_at hpath).wellFormed ht (walk_dir ht hstart hpath)
      | error e =>
          rcases walk_error hpath with rfl | rfl
          · rcases ensure_after refuses hpath step with
              ⟨e, t₁, hensure, hresult⟩ | ⟨t₁, p, hensure, hpath₁, hsettled⟩
            · rw [hresult]
              rwa [hensure] at ih
            · have hgrows := ensure_grows refuses t start path
              rw [hensure] at ih hgrows
              exact hsettled.wellFormed ih (walk_dir ih (hgrows _ _ hstart) hpath₁)
          · rw [ensure_notDirectory hpath]
            exact ht

/-- **A path that leads somewhere** needs nothing made. -/
theorem ensure_of_walk (h : walk t start path = .ok p) :
    ensure refuses t start path = (.ok (), t) := by
  cases path with
  | nil => rfl
  | cons step path =>
      cases hpath : walk t start path with
      | error e =>
          rw [walk_cons_error hpath] at h
          cases h
      | ok q =>
          have hsettled : Settled refuses t _ step (ensure refuses t start (step :: path)) :=
            ensure_at hpath
          generalize ensure refuses t start (step :: path) = x at hsettled
          cases hsettled with
          | up => rfl
          | there hn => rfl
          | file hn | refused hn _ | made hn _ =>
              simp only [walk, hpath, hn] at h
              cases h

/-- The first directory missing on the way can be made. -/
def Starts (refuses : List ν → Option String) (t : Tree ν α) (start : List ν)
    (path : List (Step ν)) : Prop :=
  ∃ q, missing t start path = some q ∧ refuses q = none

/-- **Something is made** iff the first missing directory can be. -/
theorem ensure_eq_iff : (ensure refuses t start path).2 = t ↔ ¬ Starts refuses t start path := by
  induction path with
  | nil =>
      refine iff_of_true rfl ?_
      rintro ⟨q, hmissing, -⟩
      cases hmissing
  | cons step path ih =>
      cases hpath : walk t start path with
      | ok p =>
          have hsettled : Settled refuses t _ step (ensure refuses t start (step :: path)) :=
            ensure_at hpath
          generalize ensure refuses t start (step :: path) = x at hsettled
          cases hsettled with
          | up => simp [Starts, missing, hpath]
          | there hn => simp [Starts, missing, hpath, hn]
          | file hn => simp [Starts, missing, hpath, hn]
          | refused hn hrefuses => simp [Starts, missing, hpath, hn, hrefuses]
          | made hn hrefuses =>
              refine iff_of_false (Tree.insert_ne hn .dir) (not_not_intro ⟨_, ?_, hrefuses⟩)
              simp [missing, hpath, hn]
      | error e =>
          have hstarts : Starts refuses t start (step :: path) ↔ Starts refuses t start path := by
            simp only [Starts, missing, hpath]
          rw [hstarts]
          rcases walk_error hpath with rfl | rfl
          · rw [← ih]
            rcases ensure_after refuses hpath step with
              ⟨e, t₁, hensure, hresult⟩ | ⟨t₁, p, hensure, hpath₁, hsettled⟩
            · rw [hresult, hensure]
            · rw [hensure]
              have hgrows := ensure_grows refuses t start path
              rw [hensure] at hgrows
              constructor
              · exact not_imp_not.mp (fun hne => hgrows.ne hsettled.grows hne)
              · rintro rfl
                cases hpath.symm.trans hpath₁
          · rw [ensure_notDirectory hpath]
            refine iff_of_true rfl ?_
            rintro ⟨q, hmissing, -⟩
            cases hpath.symm.trans (walk_of_missing hmissing)

theorem Settled.made_only {x : Except Failure Unit × Tree ν α} (h : Settled refuses t p (.down n) x)
    (q : List ν) : x.2 q = t q ∨ q = n :: p := by
  cases h with
  | there hn => exact Or.inl rfl
  | file hn => exact Or.inl rfl
  | refused hn hrefuses => exact Or.inl rfl
  | made hn hrefuses =>
      by_cases hq : q = n :: p
      · exact Or.inr hq
      · exact Or.inl (Tree.insert_of_ne hq _)

variable (refuses) in
/-- **Going down from a directory**, only what is on the way is made. -/
theorem ensure_made (hbase : walk t start base = .ok b) (names q : List ν) :
    (ensure refuses t start (names.map .down ++ base)).2 q = t q ∨
      b <:+ q ∧ q <:+ names ++ b := by
  induction names with
  | nil =>
      rw [List.map_nil, List.nil_append, ensure_of_walk hbase]
      exact Or.inl rfl
  | cons n names ih =>
      have hlast : ∀ p, p = names ++ b → b <:+ n :: p ∧ n :: p <:+ n :: names ++ b := by
        rintro p rfl
        exact ⟨List.suffix_append (n :: names) b, List.suffix_rfl⟩
      have hmore : q <:+ names ++ b → q <:+ n :: names ++ b :=
        fun h => h.trans (List.suffix_cons n _)
      rw [List.map_cons, List.cons_append]
      cases hpath : walk t start (names.map .down ++ base) with
      | ok p =>
          refine ((ensure_at hpath).made_only q).imp_right ?_
          rintro rfl
          exact hlast p (walk_downs hbase hpath)
      | error e =>
          rcases walk_error hpath with rfl | rfl
          · rcases ensure_after refuses hpath (.down n) with
              ⟨e, t₁, hensure, hresult⟩ | ⟨t₁, p, hensure, hpath₁, hsettled⟩
            · rw [hresult]
              rw [hensure] at ih
              exact ih.imp_right (fun h => ⟨h.1, hmore h.2⟩)
            · have hgrows := ensure_grows refuses t start (names.map .down ++ base)
              rw [hensure] at ih hgrows
              have hp := walk_downs ((walk_grows hgrows).1 b hbase) hpath₁
              rcases hsettled.made_only q with hsame | rfl
              · rw [hsame]
                exact ih.imp_right (fun h => ⟨h.1, hmore h.2⟩)
              · exact Or.inr (hlast p hp)
          · rw [ensure_notDirectory hpath]
            exact Or.inl rfl

/-- Each directory on the way down is there or can be made. -/
def Passable (refuses : List ν → Option String) (t : Tree ν α) (start : List ν) : List ν → Prop
  | [] => True
  | n :: names =>
      Passable refuses t start names ∧
        (t (n :: names ++ start) = some .dir ∨
          t (n :: names ++ start) = none ∧ refuses (n :: names ++ start) = none)

theorem Settled.ok_iff {x : Except Failure Unit × Tree ν α} (h : Settled refuses t p (.down n) x) :
    x.1 = .ok () ↔ t (n :: p) = some .dir ∨ t (n :: p) = none ∧ refuses (n :: p) = none := by
  cases h with
  | there hn => simp [hn]
  | file hn => simp [hn]
  | refused hn hrefuses => simp [hn, hrefuses]
  | made hn hrefuses => simp [hn, hrefuses]

variable (refuses) in
theorem ensure_beyond (ht : t.WellFormed) {names : List ν}
    (hpath : walk t start (names.map .down) = .error .notFound) (n : ν) :
    (ensure refuses t start (names.map .down)).2 (n :: (names ++ start)) = none := by
  have hnone : t (n :: (names ++ start)) = none := by
    by_contra hthere
    cases hpath.symm.trans (walk_of_dir ht (ht.housed n _ hthere))
  have hbase : walk t start [] = .ok start := rfl
  have hsame := ensure_made refuses hbase names (n :: (names ++ start))
  rw [List.append_nil, hnone] at hsame
  refine hsame.resolve_right ?_
  rintro ⟨-, hsuffix⟩
  have hle := hsuffix.length_le
  rw [List.length_cons] at hle
  omega

/-- **The way down is made** iff it is passable. -/
theorem ensure_ok_iff (ht : t.WellFormed) (names : List ν) :
    (ensure refuses t start (names.map .down)).1 = .ok () ↔ Passable refuses t start names := by
  induction names with
  | nil => exact iff_of_true rfl trivial
  | cons n names ih =>
      rw [List.map_cons, Passable]
      refine Iff.trans ?_ (and_congr_left' ih)
      cases hpath : walk t start (names.map .down) with
      | ok p =>
          obtain rfl := walk_names hpath
          rw [(ensure_at hpath).ok_iff, ensure_of_walk hpath]
          simp only [true_and, List.cons_append]
      | error e =>
          rcases walk_error hpath with rfl | rfl
          · rcases ensure_after refuses hpath (.down n) with
              ⟨e, t₁, hensure, hresult⟩ | ⟨t₁, p, hensure, hpath₁, hsettled⟩
            · rw [hresult, hensure]
              exact iff_of_false (by simp) (by simp)
            · obtain rfl := walk_names hpath₁
              have hnone : t (n :: (names ++ start)) = none := by
                by_contra hthere
                cases hpath.symm.trans (walk_of_dir ht (ht.housed n _ hthere))
              have hnone₁ := ensure_beyond refuses ht hpath n
              rw [hensure] at hnone₁
              change t₁ (n :: (names ++ start)) = none at hnone₁
              rw [hsettled.ok_iff, hensure, hnone₁, List.cons_append, hnone]
              simp only [true_and]
          · rw [ensure_notDirectory hpath]
            refine iff_of_false (by simp) ?_
            rintro ⟨hok, -⟩
            obtain ⟨p, hpath'⟩ := ensure_ok_walk (Prod.ext hok rfl)
            have hgrows := ensure_grows refuses t start (names.map .down)
            cases ((walk_grows hgrows).2 hpath).symm.trans hpath'

end

/-! ## Paths as they are written

A path is parsed into a start and steps, the last first, so that the directories before
it are its tail, and what is made for it is told by recursion on the steps: those before
it are made, and then the last, unless the path ends in a dot.  Where a path leads
before, nothing is made for it, and where it is made it leads after. -/

/-- A path as it is written: whether it starts at the root, whether it ends in `.`, and
its steps, the last first. -/
structure Path (ν : Type*) where
  absolute : Bool
  dot : Bool
  steps : List (Step ν)

namespace Path

/-- The step that a part of a path is; `.` is none. -/
def step (part : List Char) : Option (Step String) :=
  if part = ['.'] then none
  else if part = ['.', '.'] then some .up
  else some (.down (String.ofList part))

/-- The parts of a text between slashes, the empty ones left out. -/
def parts (text : List Char) : List (List Char) :=
  (text.splitOn '/').filter (fun part => !part.isEmpty)

def parse (text : String) : Path String where
  absolute := text.toList.head? == some '/'
  dot := (parts text.toList).getLast? == some ['.']
  steps := ((parts text.toList).filterMap step).reverse

/-- Where the steps start. -/
def start (path : Path ν) (cwd : List ν) : List ν := if path.absolute then [] else cwd

def walk (t : Tree ν α) (cwd : List ν) (path : Path ν) : Except Failure (List ν) :=
  FileTree.walk t (path.start cwd) path.steps

/-- Make the directory, and those before it. -/
def createDirAll (refuses : List ν → Option String) (t : Tree ν α) (cwd : List ν) (path : Path ν) :
    Except Failure Unit × Tree ν α :=
  if path.dot then
    -- `mkdir` never makes `name/.`, but the directories before `name` are made
    match path.walk t cwd with
    | .ok _ => (.ok (), t)
    | .error .notFound =>
        match ensure refuses t (path.start cwd) path.steps.tail with
        | (.error e, t) => (.error e, t)
        | (.ok (), t) =>
            match path.walk t cwd with
            | .ok _ => (.ok (), t)
            | .error e => (.error e, t)
    | .error e => (.error e, t)
  else ensure refuses t (path.start cwd) path.steps

/-- The path to the last directory that is made if it is missing. -/
def makes (path : Path ν) : List (Step ν) := if path.dot then path.steps.tail else path.steps

/-- The first directory missing on the way can be made. -/
def Starts (refuses : List ν → Option String) (t : Tree ν α) (cwd : List ν) (path : Path ν) :
    Prop :=
  FileTree.Starts refuses t (path.start cwd) path.makes

section
variable {refuses : List ν → Option String} {t t' : Tree ν α} {cwd p b : List ν} {path : Path ν}
  {base : List (Step ν)} {names : List ν}

theorem createDirAll_tree (refuses : List ν → Option String) (t : Tree ν α) (cwd : List ν)
    (path : Path ν) :
    (path.createDirAll refuses t cwd).2 =
      (ensure refuses t (path.start cwd) path.makes).2 := by
  rw [createDirAll, makes]
  split
  · have hstill : (∀ q, missing t (path.start cwd) path.steps.tail ≠ some q) →
        t = (ensure refuses t (path.start cwd) path.steps.tail).2 := by
      intro hnone
      refine (ensure_eq_iff.mpr ?_).symm
      rintro ⟨q, hmissing, -⟩
      exact hnone q hmissing
    -- nothing is missing before a step that is not missing itself
    have htail : ∀ q, missing t (path.start cwd) path.steps.tail = some q →
        path.walk t cwd = .error .notFound := by
      intro q hmissing
      rw [walk]
      cases hsteps : path.steps with
      | nil =>
          rw [hsteps] at hmissing
          cases hmissing
      | cons step steps =>
          rw [hsteps] at hmissing
          exact walk_cons_error (walk_of_missing hmissing) step
    split
    · rename_i p hwalk
      refine hstill ?_
      intro q hmissing
      cases hwalk.symm.trans (htail q hmissing)
    · split
      · rename_i hensure
        rw [hensure]
      · rename_i hensure
        rw [hensure]
        split
        · rfl
        · rfl
    · rename_i e hne hwalk
      refine hstill ?_
      intro q hmissing
      cases hwalk.symm.trans (htail q hmissing)
      exact hne rfl
  · rfl

theorem createDirAll_grows (refuses : List ν → Option String) (t : Tree ν α) (cwd : List ν)
    (path : Path ν) : t.Grows (path.createDirAll refuses t cwd).2 := by
  rw [createDirAll_tree]
  exact ensure_grows refuses t _ _

omit [DecidableEq ν] in
theorem eq_of_walk (hsteps : path.steps = names.map .down) (h : path.walk t cwd = .ok p) :
    p = names ++ path.start cwd := by
  rw [walk, hsteps] at h
  exact walk_names h

omit [DecidableEq ν] in
theorem start_dir (ht : t.WellFormed) (hcwd : t cwd = some .dir) (path : Path ν) :
    t (path.start cwd) = some .dir := by
  rw [start]
  split
  · exact ht.root
  · exact hcwd

variable (refuses) in
theorem createDirAll_wellFormed (ht : t.WellFormed) (hcwd : t cwd = some .dir) (path : Path ν) :
    (path.createDirAll refuses t cwd).2.WellFormed := by
  rw [createDirAll_tree]
  exact ensure_wellFormed ht (start_dir ht hcwd path) _

/-- **Something is made** iff the first missing directory can be. -/
theorem createDirAll_eq_iff :
    (path.createDirAll refuses t cwd).2 = t ↔ ¬ path.Starts refuses t cwd := by
  rw [createDirAll_tree]
  exact ensure_eq_iff

/-- **A path that leads somewhere** needs nothing made. -/
theorem createDirAll_of_walk (h : path.walk t cwd = .ok p) :
    path.createDirAll refuses t cwd = (.ok (), t) := by
  rw [createDirAll]
  split
  · rw [h]
  · exact ensure_of_walk h

/-- **The directories made** lead to the last. -/
theorem createDirAll_ok_walk (h : path.createDirAll refuses t cwd = (.ok (), t')) :
    ∃ p, path.walk t' cwd = .ok p := by
  rw [createDirAll] at h
  split at h
  · split at h
    · rename_i p hwalk
      cases h
      exact ⟨p, hwalk⟩
    · split at h
      · cases h
      · split at h
        · rename_i p hwalk
          cases h
          exact ⟨p, hwalk⟩
        · cases h
    · cases h
  · exact ensure_ok_walk h

variable (refuses) in
/-- **Below a directory** nothing outside of it is made. -/
theorem createDirAll_made (hbase : FileTree.walk t (path.start cwd) base = .ok b)
    (hsteps : path.steps = names.map .down ++ base) (q : List ν) :
    (path.createDirAll refuses t cwd).2 q = t q ∨ b <:+ q ∧ q <:+ names ++ b := by
  cases names with
  | nil =>
      have hwalk : path.walk t cwd = .ok b := by
        rw [walk, hsteps]
        exact hbase
      rw [createDirAll_of_walk hwalk]
      exact Or.inl rfl
  | cons n names =>
      rw [createDirAll_tree, makes, hsteps]
      split
      · refine (ensure_made refuses hbase names q).imp_right ?_
        exact fun h => ⟨h.1, h.2.trans (List.suffix_cons n _)⟩
      · exact ensure_made refuses hbase (n :: names) q

variable (refuses) in
theorem createDirAll_beyond (ht : t.WellFormed) (hsteps : path.steps = names.map .down)
    {e : Failure} (hwalk : path.walk t cwd = .error e) (n : ν) :
    (path.createDirAll refuses t cwd).2 (n :: (names ++ path.start cwd)) = none := by
  have hnone : t (n :: (names ++ path.start cwd)) = none := by
    by_contra hthere
    rw [walk, hsteps] at hwalk
    cases hwalk.symm.trans (walk_of_dir ht (ht.housed n _ hthere))
  have hbase : FileTree.walk t (path.start cwd) [] = .ok (path.start cwd) := rfl
  have hmade := createDirAll_made refuses hbase (by rw [hsteps, List.append_nil])
    (n :: (names ++ path.start cwd))
  rw [hnone] at hmade
  refine hmade.resolve_right ?_
  rintro ⟨-, hsuffix⟩
  have hle := hsuffix.length_le
  rw [List.length_cons] at hle
  omega

/-- **The way down is made** iff each missing directory can be, and where one is missing the
path does not end in a dot. -/
theorem createDirAll_ok_iff (ht : t.WellFormed) (hsteps : path.steps = names.map .down)
    (hstarts : path.Starts refuses t cwd) :
    (path.createDirAll refuses t cwd).1 = .ok () ↔
      path.dot = false ∧ Passable refuses t (path.start cwd) names := by
  cases hdot : path.dot with
  | false =>
      simp only [createDirAll, hdot, Bool.false_eq_true, if_false, hsteps, true_and]
      exact ensure_ok_iff ht names
  | true =>
      refine iff_of_false ?_ (by simp)
      intro hok
      obtain ⟨q, hmissing, -⟩ := hstarts
      rw [makes, hdot, if_pos rfl, hsteps] at hmissing
      have hcreated : path.createDirAll refuses t cwd =
          (.ok (), (path.createDirAll refuses t cwd).2) := Prod.ext hok rfl
      obtain ⟨p, hwalk⟩ := createDirAll_ok_walk hcreated
      rw [walk, createDirAll_tree, makes, hdot, if_pos rfl, hsteps] at hwalk
      cases names with
      | nil => cases hmissing
      | cons n names =>
          have hnone := ensure_beyond refuses ht (walk_of_missing hmissing) n
          have hwalk : FileTree.walk (ensure refuses t (path.start cwd) (names.map .down)).2
              (path.start cwd) (.down n :: names.map .down) = .ok p := hwalk
          rw [FileTree.walk] at hwalk
          split at hwalk
          · cases hwalk
          rename_i p' hpath
          obtain rfl := walk_names hpath
          rw [hnone] at hwalk
          cases hwalk

end

/-! ### What is written

A part of a text is in it, so a text without `..` leads down only. -/

theorem parts_append (a b : List Char) : parts (a ++ '/' :: b) = parts a ++ parts b := by
  rw [parts, List.splitOn_append_cons_self, List.filter_append]
  rfl

theorem parse_append {base : String} (h : base ≠ "") (rest : String) :
    (parse (base ++ "/" ++ rest)).absolute = (parse base).absolute ∧
      (parse (base ++ "/" ++ rest)).steps = (parse rest).steps ++ (parse base).steps := by
  have htext : (base ++ "/" ++ rest).toList = base.toList ++ '/' :: rest.toList := by
    rw [String.toList_append, String.toList_append, List.append_assoc]
    rfl
  simp only [parse, htext, parts_append, List.filterMap_append, List.reverse_append, and_true]
  cases hchars : base.toList with
  | nil => exact absurd (String.toList_inj.mp hchars) h
  | cons c chars => rfl

theorem infix_of_mem_splitOn {text part : List Char} (h : part ∈ text.splitOn '/') :
    part <:+: text := by
  have hparts : ∃ first rest, text.splitOn '/' = first :: rest ∧ first <+: text ∧
      ∀ part ∈ rest, part <:+: text := by
    clear h
    induction text with
    | nil => exact ⟨[], [], rfl, List.prefix_rfl, fun part h => absurd h List.not_mem_nil⟩
    | cons c text ih =>
        obtain ⟨first, rest, hsplit, hfirst, hrest⟩ := ih
        have hmore : ∀ part, part <:+: text → part <:+: c :: text :=
          fun part h => h.trans (List.suffix_cons c text).isInfix
        rw [List.splitOn_cons_eq_if_modifyHead, hsplit]
        split
        · refine ⟨[], first :: rest, rfl, List.nil_prefix, ?_⟩
          intro part hmem
          rcases List.mem_cons.mp hmem with rfl | hmem
          · exact hmore _ hfirst.isInfix
          · exact hmore _ (hrest part hmem)
        · exact ⟨c :: first, rest, rfl, List.cons_prefix_cons.mpr ⟨rfl, hfirst⟩,
            fun part hmem => hmore _ (hrest part hmem)⟩
  obtain ⟨first, rest, hsplit, hfirst, hrest⟩ := hparts
  rw [hsplit] at h
  rcases List.mem_cons.mp h with rfl | hmem
  · exact hfirst.isInfix
  · exact hrest part hmem

theorem parse_downs {text : String} (h : ¬ ['.', '.'] <:+: text.toList) :
    ∃ names : List String, (parse text).steps = names.map .down := by
  have hdown : ∀ s ∈ (parse text).steps, ∃ name, Step.down name = s := by
    intro s hs
    obtain ⟨part, hpart, hstep⟩ := List.mem_filterMap.mp (List.mem_reverse.mp hs)
    have hinfix := infix_of_mem_splitOn (List.mem_of_mem_filter hpart)
    rw [step] at hstep
    split at hstep
    · cases hstep
    split at hstep
    · rename_i hup
      exact absurd (hup ▸ hinfix) h
    · cases hstep
      exact ⟨_, rfl⟩
  have hrange : (parse text).steps ∈ Set.range (List.map Step.down) := by
    rw [Set.range_list_map]
    exact hdown
  obtain ⟨names, hnames⟩ := hrange
  exact ⟨names, hnames.symm⟩

end Path

end FileTree
