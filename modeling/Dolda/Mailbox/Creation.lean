/-
# `Dolda.Mailbox.Creation` — what creating a mailbox leaves behind

`MailboxSystem::create_mailbox` over a tree of files: it makes the mailbox's
directory, and only then has `PersistQ::new` look at the configuration, find the
directory's canonical path and make the segment file.  What the system refuses
where the tree would permit it is a parameter (`Os`).  Names are text, every
directory may be searched, and there are no symbolic links.

**The rule.**  Nothing that was made is taken away again.  So a creation that
fails leaves no trace only where it fails before it makes anything, and one that
succeeds makes everything in the base directory, if that is one (`Harmless`,
`traceless_iff`).  The check for `..` comes too late: by then the directories on
the way are made, wherever they are (`outside_created`).
-/
import Dolda.Lib.FileTree
import Dolda.Mailbox.Delivery

namespace Dolda.Creation

open FileTree (Failure Path)
open PersistQ (Segment SegmentManager PersistQConfig)

abbrev Place := List String

abbrev Tree := FileTree.Tree String (List UInt8)

/-- The files there are, and the working directory. -/
structure Site where
  tree : Tree
  wellFormed : tree.WellFormed
  cwd : Place
  cwd_dir : tree cwd = some .dir

/-- What the system refuses, with its message. -/
structure Os where
  /-- A path that is too long, say. -/
  takes : String → Option String
  mkdir : Place → Option String
  /-- To give a path its canonical form, the first time and the second. -/
  existing : Place → Option String
  created : Place → Option String
  openFile : Place → Option String
  setLen : Place → Option String
  mapFile : Place → Option String

/-- It refuses nothing. -/
def Os.willing : Os where
  takes _ := none
  mkdir _ := none
  existing _ := none
  created _ := none
  openFile _ := none
  setLen _ := none
  mapFile _ := none

/-- The system's messages. -/
def message : Failure → String
  | .notFound => "No such file or directory (os error 2)"
  | .notDirectory => "Not a directory (os error 20)"
  | .present => "File exists (os error 17)"
  | .refused e => e

/-! ## The calls -/

section
variable (os : Os) (cwd : Place)

def createDirAll (path : String) (t : Tree) : Except String Unit × Tree :=
  if Char.ofNat 0 ∈ path.toList then (.error "file name contained an unexpected NUL byte", t)
  else
    match os.takes path with
    | some e => (.error e, t)
    | none =>
        match (Path.parse path).createDirAll os.mkdir t cwd with
        | (.error e, t) => (.error (message e), t)
        | (.ok (), t) => (.ok (), t)

def canonicalize (refuses : Place → Option String) (path : String) (t : Tree) :
    Except String Place :=
  match (Path.parse path).walk t cwd with
  | .error e => .error (message e)
  | .ok place =>
      match refuses place with
      | some e => .error e
      | none => .ok place

/-- A canonical path. -/
def render (place : Place) : String := "/" ++ "/".intercalate place.reverse

def openFile (file : Place) (t : Tree) : Except String (List UInt8) × Tree :=
  match t file, os.openFile file with
  | some .dir, _ => (.error "Is a directory (os error 21)", t)
  | _, some e => (.error e, t)
  | some (.file content), none => (.ok content, t)
  | none, none => (.ok [], t.insert file (.file []))

def setLen (file : Place) (content : List UInt8) (maxSize : Nat) (t : Tree) :
    Except String Unit × Tree :=
  match os.setLen file with
  | some e => (.error e, t)
  | none => (.ok (), t.insert file (.file (resize content maxSize)))

/-- Open, set the length, map. -/
def mapped (file : Place) (maxSize : Nat) (t : Tree) : Except FileError MappedFile × Tree :=
  match openFile os file t with
  | (.error e, t) => (.error (.opening e), t)
  | (.ok content, t) =>
      if h : maxSize ≤ isizeMax then
        match setLen os file content maxSize t with
        | (.error e, t) => (.error (.settingLen e), t)
        | (.ok (), t) =>
            match os.mapFile file with
            | some e => (.error (.mapping e), t)
            | none =>
                let file : MappedFile :=
                  { maxSize
                    writePos := 0
                    mmap := resize content maxSize
                    mmap_length := resize_length content maxSize
                    maxSize_le := h }
                (.ok file, t)
      else (.error (.settingLen "out of range integral type conversion attempted"), t)

/-! ## The queue -/

/-- The name of a segment's file, the last of its path. -/
def segmentFile (partitionId segmentId : Nat) : String :=
  "partition_" ++ toString partitionId ++ "_segment_" ++ toString segmentId ++ ".dat"

/-- `Segment::new`, at a path in the directory at `place`. -/
def newSegment (place : Place) (name path : String) (maxSize : Nat) (t : Tree) :
    Except String Segment × Tree :=
  match mapped os (name :: place) maxSize t with
  | (.error e, t) => (.error (PersistQ.fileMessage e), t)
  | (.ok file, t) => (.ok { toMappedFile := file, path }, t)

def createNewSegment (place : Place) (m : SegmentManager) (t : Tree) :
    Except String SegmentManager × Tree :=
  let segmentId := m.segments.length
  match newSegment os place (segmentFile m.partitionId segmentId) (m.segmentPath segmentId)
      m.segmentSize t with
  | (.error e, t) => (.error e, t)
  | (.ok segment, t) =>
      (.ok { m with segments := m.segments ++ [segment], currentSegment := some segmentId }, t)

/-- `SegmentManager::new` in the directory at `place`, whose canonical path is
`storageDir`. -/
def newManager (place : Place) (partitionId segmentSize : Nat) (storageDir : String) (t : Tree) :
    Except String SegmentManager × Tree :=
  let path : Path String := { absolute := true, dot := false, steps := place.map .down }
  match path.createDirAll os.mkdir t cwd with
  | (.error e, t) => (.error ("Failed to create storage directory: " ++ message e), t)
  | (.ok (), t) =>
      createNewSegment os place
        { partitionId, segments := [], currentSegment := none, segmentSize, storageDir } t

def newManagers (place : Place) (config : PersistQConfig) :
    List Nat → AList (fun _ : Nat => SegmentManager) → Tree →
      Except String (AList (fun _ : Nat => SegmentManager)) × Tree
  | [], managers, t => (.ok managers, t)
  | i :: is, managers, t =>
      match newManager os cwd place i config.segmentSize config.storageDir t with
      | (.error e, t) => (.error e, t)
      | (.ok manager, t) => newManagers place config is (managers.insert i manager) t

/-- The storage directory, created if it is not there. -/
def storagePlace (storageDir : String) (t : Tree) : Except String Place × Tree :=
  match canonicalize cwd os.existing storageDir t with
  | .ok place => (.ok place, t)
  | .error _ =>
      match createDirAll os cwd storageDir t with
      | (.error e, t) => (.error ("Failed to create storage directory: " ++ e), t)
      | (.ok (), t) =>
          match canonicalize cwd os.created storageDir t with
          | .error e => (.error ("Failed to canonicalize storage path: " ++ e), t)
          | .ok place => (.ok place, t)

/-- `PersistQ::new`. -/
def newQueue (config : PersistQConfig) (t : Tree) : Except String PersistQ × Tree :=
  match config.validateConfig with
  | .error e => (.error e, t)
  | .ok () =>
      match storagePlace os cwd config.storageDir t with
      | (.error e, t) => (.error e, t)
      | (.ok place, t) =>
          let config := { config with storageDir := render place }
          match newManagers os cwd place config (List.range' 1 config.numPartitions) ∅ t with
          | (.error e, t) => (.error e, t)
          | (.ok segmentManagers, t) =>
              (.ok { segmentManagers, globalOffset := 0, offsetMap := ∅, config }, t)

def createMailbox (address : String) (sys : MailboxSystem) (t : Tree) :
    (Except MailboxError Mailbox × MailboxSystem) × Tree :=
  match MailboxAddress.new address with
  | .error e => ((.error e, sys), t)
  | .ok addr =>
      match sys.mailboxes.lookup addr with
      | some _ =>
          ((.error (.invalidAddress ("Mailbox '" ++ address ++ "' already exists")), sys), t)
      | none =>
          match createDirAll os cwd (sys.mailboxDir address) t with
          | (.error e, t) => ((.error (.io e), sys), t)
          | (.ok (), t) =>
              let config := { sys.defaultConfig with storageDir := sys.mailboxDir address }
              match newQueue os cwd config t with
              | (.error e, t) => ((.error (.persistQ e), sys), t)
              | (.ok queue, t) =>
                  ((.ok { address := addr, readOffset := 0 }, sys.putQueue addr queue), t)

end

/-! ## Leaving no trace -/

/-- Where the base directory is, if it is one. -/
def basePlace (site : Site) (sys : MailboxSystem) : Option Place :=
  if sys.baseDir = "" then none
  else
    match (Path.parse sys.baseDir).walk site.tree site.cwd with
    | .ok b => some b
    | .error _ => none

/-- The place is the base directory or in it. -/
def InBase (site : Site) (sys : MailboxSystem) (p : Place) : Prop :=
  ∃ b, basePlace site sys = some b ∧ b <:+ p

/-- **Nothing is left behind.**  A creation that fails leaves the table and the tree as
they were; one that succeeds makes things only in the base directory. -/
def Traceless (os : Os) (site : Site) (address : String) (sys : MailboxSystem) : Prop :=
  match createMailbox os site.cwd address sys site.tree with
  | ((.error _, sys'), t) => sys' = sys ∧ t = site.tree
  | ((.ok _, _), t) => ∀ p, site.tree p = none → t p ≠ none → InBase site sys p

def mailboxPath (sys : MailboxSystem) (address : String) : Path String :=
  Path.parse (sys.mailboxDir address)

/-- Making the segment file leaves no trace: it fails at once, or it changes nothing or
comes to its end. -/
def FileFits (os : Os) (site : Site) (sys : MailboxSystem) (file : Place) : Prop :=
  match site.tree file with
  | some .dir => True
  | some (.file content) =>
      os.openFile file ≠ none ∨ os.setLen file ≠ none ∨
        content.length = MailboxSystem.segmentSize ∨ os.mapFile file = none
  | none =>
      os.openFile file ≠ none ∨
        os.setLen file = none ∧ os.mapFile file = none ∧ basePlace site sys ≠ none

/-- The system refuses nothing after the mailbox's directory is made at `p`. -/
def Permits (os : Os) (p : Place) : Prop :=
  (os.existing p = none ∨ os.created p = none) ∧ os.openFile (segmentFile 1 0 :: p) = none ∧
    os.setLen (segmentFile 1 0 :: p) = none ∧ os.mapFile (segmentFile 1 0 :: p) = none

/-- What a creation meets that leaves no trace. -/
inductive Harmless (os : Os) (site : Site) (address : String) (sys : MailboxSystem) : Prop where
  | empty : address.isEmpty = true → Harmless os site address sys
  | taken {queue : PersistQ} : sys.mailboxes.lookup ⟨address⟩ = some queue →
      Harmless os site address sys
  /-- A path that holds a NUL, or one that the system does not take. -/
  | untakable : Char.ofNat 0 ∈ (sys.mailboxDir address).toList ∨
      os.takes (sys.mailboxDir address) ≠ none → Harmless os site address sys
  /-- The directory is not there, and no directory can be made. -/
  | blocked {e : Failure} : (mailboxPath sys address).walk site.tree site.cwd = .error e →
      ¬ (mailboxPath sys address).Starts os.mkdir site.tree site.cwd →
        Harmless os site address sys
  /-- The directory is there, and its path is rejected. -/
  | rejected {p : Place} : (mailboxPath sys address).walk site.tree site.cwd = .ok p →
      ['.', '.'] <:+: (sys.mailboxDir address).toList → Harmless os site address sys
  /-- The directory is there, and its path has no canonical form. -/
  | unresolved {p : Place} : (mailboxPath sys address).walk site.tree site.cwd = .ok p →
      os.existing p ≠ none → os.created p ≠ none → Harmless os site address sys
  /-- The directory is there. -/
  | file {p : Place} : (mailboxPath sys address).walk site.tree site.cwd = .ok p →
      FileFits os site sys (segmentFile 1 0 :: p) → Harmless os site address sys
  /-- Directories are missing, and all that is to be made can be, in the base directory. -/
  | fresh {names : List String} : (mailboxPath sys address).steps = names.map .down →
      (mailboxPath sys address).dot = false →
      ¬ ['.', '.'] <:+: (sys.mailboxDir address).toList →
      (mailboxPath sys address).Starts os.mkdir site.tree site.cwd →
      FileTree.Passable os.mkdir site.tree ((mailboxPath sys address).start site.cwd) names →
      Permits os (names ++ (mailboxPath sys address).start site.cwd) →
      basePlace site sys ≠ none → Harmless os site address sys

/-! ## What the calls come to

A file that has its size already is not changed.  The canonical path of a directory makes
nothing, so of the calls of `PersistQ::new` only that for the segment file does; and the
directory that was made is found, unless the system refuses twice. -/

/-- Whether a call succeeded, and what it left. -/
def did {ε β : Type} (r : Except ε β × Tree) : Bool × Tree := (r.1.isOk, r.2)

/-- No trace is left of `t'`. -/
def Tidy (inside : Place → Prop) (t : Tree) : Bool × Tree → Prop
  | (true, t') => ∀ p, t p = none → t' p ≠ none → inside p
  | (false, t') => t' = t

section
variable {os : Os} {cwd p : Place} {t t' : Tree} {file : Place} {maxSize : Nat}
  {inside : Place → Prop}

theorem did_mapped_dir (h : t file = some .dir) : did (mapped os file maxSize t) = (false, t) := by
  simp only [mapped, openFile, h]
  rfl

theorem did_mapped_file {content : List UInt8} (h : t file = some (.file content))
    (hsize : maxSize ≤ isizeMax) :
    did (mapped os file maxSize t) =
      match os.openFile file, os.setLen file with
      | some _, _ => (false, t)
      | none, some _ => (false, t)
      | none, none =>
          ((os.mapFile file).isNone, t.insert file (.file (resize content maxSize))) := by
  cases hopen : os.openFile file with
  | some e =>
      simp only [mapped, openFile, h, hopen]
      rfl
  | none =>
      cases hset : os.setLen file with
      | some e =>
          simp only [mapped, openFile, h, hopen, setLen, hset, dif_pos hsize]
          rfl
      | none =>
          cases hmap : os.mapFile file with
          | some e =>
              simp only [mapped, openFile, h, hopen, setLen, hset, hmap, dif_pos hsize]
              rfl
          | none =>
              simp only [mapped, openFile, h, hopen, setLen, hset, hmap, dif_pos hsize]
              rfl

theorem did_mapped_missing (h : t file = none) (hsize : maxSize ≤ isizeMax) :
    did (mapped os file maxSize t) =
      match os.openFile file, os.setLen file with
      | some _, _ => (false, t)
      | none, some _ => (false, t.insert file (.file []))
      | none, none => ((os.mapFile file).isNone, t.insert file (.file (resize [] maxSize))) := by
  have htwice : (t.insert file (.file [])).insert file (.file (resize [] maxSize)) =
      t.insert file (.file (resize [] maxSize)) := Function.update_idem ..
  cases hopen : os.openFile file with
  | some e =>
      simp only [mapped, openFile, h, hopen]
      rfl
  | none =>
      cases hset : os.setLen file with
      | some e =>
          simp only [mapped, openFile, h, hopen, setLen, hset, dif_pos hsize]
          rfl
      | none =>
          cases hmap : os.mapFile file with
          | some e =>
              simp only [mapped, openFile, h, hopen, setLen, hset, hmap, dif_pos hsize, htwice]
              rfl
          | none =>
              simp only [mapped, openFile, h, hopen, setLen, hset, hmap, dif_pos hsize, htwice]
              rfl

theorem insert_resize_eq_iff {content : List UInt8} (h : t file = some (.file content)) :
    t.insert file (.file (resize content maxSize)) = t ↔ content.length = maxSize := by
  constructor
  · intro heq
    have hfile := congrFun heq file
    rw [FileTree.Tree.insert_self, h] at hfile
    rw [← FileTree.Entry.file.inj (Option.some.inj hfile), resize_length]
  · rintro rfl
    rw [resize_self, FileTree.Tree.insert, ← h, Function.update_eq_self]

/-- **When making the segment file** leaves no trace. -/
theorem tidy_mapped_iff (hsize : maxSize ≤ isizeMax) :
    Tidy inside t (did (mapped os file maxSize t)) ↔
      match t file with
      | some .dir => True
      | some (.file content) =>
          os.openFile file ≠ none ∨ os.setLen file ≠ none ∨ content.length = maxSize ∨
            os.mapFile file = none
      | none =>
          os.openFile file ≠ none ∨
            os.setLen file = none ∧ os.mapFile file = none ∧ inside file := by
  cases hfile : t file with
  | none =>
      rw [did_mapped_missing hfile hsize]
      cases hopen : os.openFile file with
      | some e => simp [Tidy]
      | none =>
          cases hset : os.setLen file with
          | some e => simp [Tidy, FileTree.Tree.insert_ne hfile]
          | none =>
              cases hmap : os.mapFile file with
              | some e => simp [Tidy, FileTree.Tree.insert_ne hfile]
              | none =>
                  simp only [Tidy, Option.isNone_none, FileTree.Tree.insert_made_iff hfile]
                  simp
  | some entry =>
      cases entry with
      | dir =>
          rw [did_mapped_dir hfile]
          simp [Tidy]
      | file content =>
          have hthere : t file ≠ none := by
            rw [hfile]
            exact Option.some_ne_none _
          rw [did_mapped_file hfile hsize]
          cases hopen : os.openFile file with
          | some e => simp [Tidy]
          | none =>
              cases hset : os.setLen file with
              | some e => simp [Tidy]
              | none =>
                  cases hmap : os.mapFile file with
                  | some e => simp [Tidy, insert_resize_eq_iff hfile]
                  | none =>
                      refine iff_of_true ?_ (by simp)
                      intro p hp hp'
                      exact absurd (FileTree.Tree.insert_eq_none hthere hp _) hp'

/-- The manager of a partition with one segment. -/
def oneSegment (partitionId segmentSize : Nat) (storageDir : String) (file : MappedFile) :
    SegmentManager :=
  let m : SegmentManager :=
    { partitionId, segments := [], currentSegment := none, segmentSize, storageDir }
  { m with
    segments := [{ toMappedFile := file, path := m.segmentPath 0 }]
    currentSegment := some 0 }

theorem newManagers_one (ht : t.WellFormed) (hp : t p = some .dir) (config : PersistQConfig) :
    newManagers os cwd p config [1] ∅ t =
      match mapped os (segmentFile 1 0 :: p) config.segmentSize t with
      | (.error e, t) => (.error (PersistQ.fileMessage e), t)
      | (.ok file, t) =>
          (.ok (AList.insert 1 (oneSegment 1 config.segmentSize config.storageDir file) ∅), t) := by
  have hwalk : FileTree.walk t [] (p.map .down) = .ok p := by
    have hroot : t (p ++ []) = some .dir := by rwa [List.append_nil]
    rw [FileTree.walk_of_dir ht hroot, List.append_nil]
  have hcreate :
      ({ absolute := true, dot := false, steps := p.map .down } : Path String).createDirAll
        os.mkdir t cwd = (.ok (), t) := Path.createDirAll_of_walk hwalk
  simp only [newManagers, newManager, hcreate, createNewSegment, newSegment, List.length_nil]
  cases mapped os (segmentFile 1 0 :: p) config.segmentSize t with
  | mk result t' =>
      cases result with
      | error e => rfl
      | ok file => rfl

theorem did_newManagers (ht : t.WellFormed) (hp : t p = some .dir) (config : PersistQConfig) :
    did (newManagers os cwd p config [1] ∅ t) =
      did (mapped os (segmentFile 1 0 :: p) config.segmentSize t) := by
  rw [newManagers_one ht hp]
  cases mapped os (segmentFile 1 0 :: p) config.segmentSize t with
  | mk result t' =>
      cases result with
      | error e => rfl
      | ok file => rfl

theorem createDirAll_ok {path : String} (h : createDirAll os cwd path t = (.ok (), t')) :
    Char.ofNat 0 ∉ path.toList ∧ os.takes path = none ∧
      (Path.parse path).createDirAll os.mkdir t cwd = (.ok (), t') := by
  rw [createDirAll] at h
  split at h
  · cases h
  rename_i hnul
  split at h
  · cases h
  rename_i htakes
  split at h
  · cases h
  · rename_i t₁ hpath
    cases h
    exact ⟨hnul, htakes, hpath⟩

theorem createDirAll_of_walk {path : String} (hnul : Char.ofNat 0 ∉ path.toList)
    (htakes : os.takes path = none) (hwalk : (Path.parse path).walk t cwd = .ok p) :
    createDirAll os cwd path t = (.ok (), t) := by
  simp only [createDirAll, if_neg hnul, htakes, Path.createDirAll_of_walk hwalk]

theorem storagePlace_of_walk {path : String} (hnul : Char.ofNat 0 ∉ path.toList)
    (htakes : os.takes path = none) (hwalk : (Path.parse path).walk t cwd = .ok p) :
    (os.existing p = none ∨ os.created p = none → storagePlace os cwd path t = (.ok p, t)) ∧
      (os.existing p ≠ none → os.created p ≠ none →
        ∃ e, storagePlace os cwd path t = (.error e, t)) := by
  have hcreate := createDirAll_of_walk hnul htakes hwalk
  cases hexisting : os.existing p with
  | none => exact ⟨fun _ => by simp only [storagePlace, canonicalize, hwalk, hexisting],
      fun h => absurd rfl h⟩
  | some e =>
      cases hcreated : os.created p with
      | none =>
          refine ⟨fun _ => ?_, fun _ h => absurd rfl h⟩
          simp only [storagePlace, canonicalize, hwalk, hexisting, hcreate, hcreated]
      | some e' =>
          refine ⟨fun h => ?_, fun _ _ => ?_⟩
          · rcases h with h | h
            · cases h
            · cases h
          · simp only [storagePlace, canonicalize, hwalk, hexisting, hcreate, hcreated]
            exact ⟨_, rfl⟩

end

/-- The default configuration is valid in a directory without `..` and NUL. -/
theorem mailboxConfig_valid_iff (sys : MailboxSystem) (address : String) :
    { sys.defaultConfig with storageDir := sys.mailboxDir address }.Valid ↔
      ¬ ['.', '.'] <:+: (sys.mailboxDir address).toList ∧
        Char.ofNat 0 ∉ (sys.mailboxDir address).toList := by
  constructor
  · exact fun h => ⟨h.storageDir_inside, h.storageDir_nonnull⟩
  · rintro ⟨hinside, hnull⟩
    have hnonempty : sys.mailboxDir address ≠ "" := by
      intro h
      have hlen := congrArg (fun s => s.toList.length) h
      simp [MailboxSystem.mailboxDir, String.toList_append] at hlen
    have hthousand : 1 ≤ 1024 := by decide
    have hten : 1 ≤ 10 := by decide
    have hmin : PersistQConfig.minSegmentSize ≤ MailboxSystem.segmentSize := by decide
    have hmax : MailboxSystem.segmentSize ≤ PersistQConfig.maxSegmentSize := by decide
    exact
      { numPartitions_pos := Nat.one_pos
        numPartitions_le := hthousand
        segmentSize_ge := hmin
        segmentSize_le := hmax
        replicationFactor_pos := Nat.one_pos
        replicationFactor_le := hten
        storageDir_nonempty := hnonempty
        storageDir_inside := hinside
        storageDir_nonnull := hnull
        threshold_nonneg := rfl
        threshold_le_one := rfl }

/-! ## The stages of a creation

A creation fails early, without a trace, for an address that is empty or taken; or it
comes to make directories, and from there on it is the directory, then the queue in it. -/

section
variable {os : Os} {cwd p : Place} {t t₁ : Tree} {address : String} {sys : MailboxSystem}

/-- What `create_mailbox` did, apart from the table. -/
def created (os : Os) (cwd : Place) (address : String) (sys : MailboxSystem) (t : Tree) :
    Bool × Tree :=
  ((createMailbox os cwd address sys t).1.1.isOk, (createMailbox os cwd address sys t).2)

/-- The creation comes to make directories. -/
structure Proceeds (os : Os) (address : String) (sys : MailboxSystem) : Prop where
  nonempty : address.isEmpty = false
  free : sys.mailboxes.lookup ⟨address⟩ = none
  nonnull : Char.ofNat 0 ∉ (sys.mailboxDir address).toList
  takes : os.takes (sys.mailboxDir address) = none

theorem created_early (h : ¬ Proceeds os address sys) :
    created os cwd address sys t = (false, t) := by
  have hnew : address.isEmpty = false → MailboxAddress.new address = .ok ⟨address⟩ := by
    intro hempty
    rw [MailboxAddress.new, hempty]
    rfl
  cases hempty : address.isEmpty with
  | true =>
      simp only [created, createMailbox, MailboxAddress.new, hempty, if_true]
      rfl
  | false =>
      cases hfree : sys.mailboxes.lookup ⟨address⟩ with
      | some queue =>
          simp only [created, createMailbox, hnew hempty, hfree]
          rfl
      | none =>
          have hfails : ∃ e, createDirAll os cwd (sys.mailboxDir address) t = (.error e, t) := by
            rw [createDirAll]
            split
            · exact ⟨_, rfl⟩
            rename_i hnonnull
            split
            · exact ⟨_, rfl⟩
            · rename_i htakes
              exact absurd ⟨hempty, hfree, hnonnull, htakes⟩ h
          obtain ⟨e, hfails⟩ := hfails
          simp only [created, createMailbox, hnew hempty, hfree, hfails]
          rfl

/-- What a creation comes to, from its directories on. -/
theorem Proceeds.created_eq (h : Proceeds os address sys) (cwd : Place) (t : Tree) :
    created os cwd address sys t =
      match (mailboxPath sys address).createDirAll os.mkdir t cwd with
      | (.error _, t) => (false, t)
      | (.ok (), t) =>
          did (newQueue os cwd
            { sys.defaultConfig with storageDir := sys.mailboxDir address } t) := by
  have hnew : MailboxAddress.new address = .ok ⟨address⟩ := by
    rw [MailboxAddress.new, h.nonempty]
    rfl
  simp only [created, createMailbox, hnew, h.free, createDirAll, if_neg h.nonnull, h.takes,
    mailboxPath]
  cases (Path.parse (sys.mailboxDir address)).createDirAll os.mkdir t cwd with
  | mk result t₁ =>
      cases result with
      | error e => rfl
      | ok done =>
          simp only
          cases newQueue os cwd
            { sys.defaultConfig with storageDir := sys.mailboxDir address } t₁ with
          | mk result t₂ =>
              cases result with
              | error e => rfl
              | ok queue => rfl

theorem did_newQueue_rejected (h : ['.', '.'] <:+: (sys.mailboxDir address).toList) :
    did (newQueue os cwd { sys.defaultConfig with storageDir := sys.mailboxDir address } t) =
      (false, t) := by
  cases hvalid : { sys.defaultConfig with
      storageDir := sys.mailboxDir address }.validateConfig with
  | error e =>
      simp only [newQueue, hvalid]
      rfl
  | ok done =>
      rw [PersistQConfig.validateConfig_ok_iff, mailboxConfig_valid_iff] at hvalid
      exact absurd h hvalid.1

theorem Proceeds.did_newQueue (h : Proceeds os address sys)
    (hinside : ¬ ['.', '.'] <:+: (sys.mailboxDir address).toList) (ht : t.WellFormed)
    (hcwd : t cwd = some .dir) (hwalk : (mailboxPath sys address).walk t cwd = .ok p) :
    (os.existing p ≠ none → os.created p ≠ none →
      did (newQueue os cwd { sys.defaultConfig with storageDir := sys.mailboxDir address } t) =
        (false, t)) ∧
    (os.existing p = none ∨ os.created p = none →
      did (newQueue os cwd { sys.defaultConfig with storageDir := sys.mailboxDir address } t) =
        did (mapped os (segmentFile 1 0 :: p) MailboxSystem.segmentSize t)) := by
  have hvalid : { sys.defaultConfig with
      storageDir := sys.mailboxDir address }.validateConfig = .ok () := by
    rw [PersistQConfig.validateConfig_ok_iff, mailboxConfig_valid_iff]
    exact ⟨hinside, h.nonnull⟩
  have hplace := storagePlace_of_walk h.nonnull h.takes hwalk
  constructor
  · intro hexisting hcreated
    obtain ⟨e, hplace⟩ := hplace.2 hexisting hcreated
    simp only [newQueue, hvalid, hplace]
    rfl
  · intro hfound
    have hp := FileTree.walk_dir ht (Path.start_dir ht hcwd _) hwalk
    have hmanagers : did (newManagers os cwd p { sys.defaultConfig with storageDir := render p }
        (List.range' 1 sys.defaultConfig.numPartitions) ∅ t) =
          did (mapped os (segmentFile 1 0 :: p) MailboxSystem.segmentSize t) :=
      did_newManagers ht hp _
    refine Eq.trans ?_ hmanagers
    simp only [newQueue, hvalid, hplace.1 hfound]
    cases newManagers os cwd p { sys.defaultConfig with storageDir := render p }
        (List.range' 1 sys.defaultConfig.numPartitions) ∅ t with
    | mk result t₁ =>
        cases result with
        | error e => rfl
        | ok managers => rfl

/-! ## The creation without the tree

The operation of the system knows only the answers of the file system.  Those the tree
gives along the way are put together here, and with them the two operations answer alike
and change the table alike. -/

/-- A refusal, as an answer. -/
def answer {β : Type} (refusal : Option String) (value : β) : Except String β :=
  match refusal with
  | some e => .error e
  | none => .ok value

/-- The answers about a directory that is there, and a file in it. -/
def filesAt (os : Os) (file : Place) (t : Tree) : Files where
  createDirAll _ := .ok ()
  openFile _ := (openFile os file t).1
  setLen _ _ := answer (os.setLen file) ()
  mapFile _ := answer (os.mapFile file) ()

/-- The answers about its canonical path. -/
def pathsAt (os : Os) (p : Place) : PersistQ.Paths where
  existing _ := answer (os.existing p) (render p)
  created _ := answer (os.created p) (render p)

theorem mapped_fst (file : Place) (path : String) (maxSize : Nat) (t : Tree) :
    (mapped os file maxSize t).1 = MappedFile.create (filesAt os file t) path maxSize := by
  simp only [mapped, MappedFile.create, filesAt]
  cases openFile os file t with
  | mk result t₁ =>
      cases result with
      | error e => rfl
      | ok content =>
          dsimp only
          split
          · cases hset : os.setLen file with
            | some e =>
                simp only [setLen, hset, answer]
            | none =>
                simp only [setLen, hset, answer]
                cases os.mapFile file with
                | some e => rfl
                | none => rfl
          · rfl

theorem newManagers_fst (ht : t.WellFormed) (hp : t p = some .dir) (config : PersistQConfig) :
    (newManagers os cwd p config [1] ∅ t).1 =
      PersistQ.newManagers (filesAt os (segmentFile 1 0 :: p) t) config [1] ∅ := by
  have hdirs : (filesAt os (segmentFile 1 0 :: p) t).createDirAll config.storageDir = .ok () := rfl
  rw [newManagers_one ht hp]
  simp only [PersistQ.newManagers, SegmentManager.new, hdirs, SegmentManager.createNewSegment,
    Segment.new, List.length_nil]
  rw [← mapped_fst]
  cases mapped os (segmentFile 1 0 :: p) config.segmentSize t with
  | mk result t' =>
      cases result with
      | error e => rfl
      | ok file => rfl

theorem newQueue_fst {config : PersistQConfig} (hone : config.numPartitions = 1)
    (hnul : Char.ofNat 0 ∉ config.storageDir.toList) (htakes : os.takes config.storageDir = none)
    (ht : t.WellFormed) (hcwd : t cwd = some .dir)
    (hwalk : (Path.parse config.storageDir).walk t cwd = .ok p) :
    (newQueue os cwd config t).1 =
      PersistQ.new (filesAt os (segmentFile 1 0 :: p) t) (pathsAt os p) config := by
  have hp := FileTree.walk_dir ht (Path.start_dir ht hcwd _) hwalk
  have hrange : List.range' 1 config.numPartitions = [1] := by
    rw [hone]
    rfl
  have hmanagers : (newManagers os cwd p { config with storageDir := render p } [1] ∅ t).1 =
      PersistQ.newManagers (filesAt os (segmentFile 1 0 :: p) t)
        { config with storageDir := render p } [1] ∅ := newManagers_fst ht hp _
  have hcreate := createDirAll_of_walk hnul htakes hwalk
  rw [newQueue, PersistQ.new]
  cases config.validateConfig with
  | error e => rfl
  | ok done =>
      simp only [storagePlace, canonicalize, hwalk, PersistQ.storagePath, pathsAt]
      cases os.existing p with
      | none =>
          simp only [answer, hrange, ← hmanagers]
          cases newManagers os cwd p { config with storageDir := render p } [1] ∅ t with
          | mk result t₁ => cases result <;> rfl
      | some e =>
          have hdirs : (filesAt os (segmentFile 1 0 :: p) t).createDirAll config.storageDir =
            .ok () := rfl
          simp only [answer, hcreate, hdirs, hwalk]
          cases os.created p with
          | none =>
              simp only [hrange, ← hmanagers]
              cases newManagers os cwd p { config with storageDir := render p } [1] ∅ t with
              | mk result t₁ => cases result <;> rfl
          | some e' => rfl

/-- **A creation** answers, and changes the table, as it does where only the answers of
the file system are known. -/
theorem createMailbox_refines (os : Os) (site : Site) (address : String) (sys : MailboxSystem) :
    ∃ fs paths, (createMailbox os site.cwd address sys site.tree).1 =
      sys.createMailbox fs paths address := by
  cases hempty : address.isEmpty with
  | true =>
      refine ⟨Files.fresh, PersistQ.Paths.plain, ?_⟩
      simp only [createMailbox, MailboxSystem.createMailbox, MailboxAddress.new, hempty, if_true]
  | false =>
  have hnew : MailboxAddress.new address = .ok ⟨address⟩ := by
    rw [MailboxAddress.new, hempty]
    rfl
  cases hfree : sys.mailboxes.lookup ⟨address⟩ with
  | some queue =>
      refine ⟨Files.fresh, PersistQ.Paths.plain, ?_⟩
      simp only [createMailbox, MailboxSystem.createMailbox, hnew, hfree]
  | none =>
  cases hdirs : createDirAll os site.cwd (sys.mailboxDir address) site.tree with
  | mk result t₁ =>
      cases result with
      | error e =>
          refine ⟨{ Files.fresh with createDirAll := fun _ => .error e }, PersistQ.Paths.plain, ?_⟩
          simp only [createMailbox, MailboxSystem.createMailbox, hnew, hfree, hdirs]
      | ok done =>
          obtain ⟨hnul, htakes, hpath⟩ := createDirAll_ok hdirs
          obtain ⟨p, hwalk⟩ := Path.createDirAll_ok_walk hpath
          have hgrows := Path.createDirAll_grows os.mkdir site.tree site.cwd
            (Path.parse (sys.mailboxDir address))
          have ht := Path.createDirAll_wellFormed os.mkdir site.wellFormed site.cwd_dir
            (Path.parse (sys.mailboxDir address))
          rw [hpath] at hgrows ht
          have hqueue : (newQueue os site.cwd
              { sys.defaultConfig with storageDir := sys.mailboxDir address } t₁).1 =
                PersistQ.new (filesAt os (segmentFile 1 0 :: p) t₁) (pathsAt os p)
                  { sys.defaultConfig with storageDir := sys.mailboxDir address } :=
            newQueue_fst rfl hnul htakes ht (hgrows _ _ site.cwd_dir) hwalk
          have hdir : (filesAt os (segmentFile 1 0 :: p) t₁).createDirAll (sys.mailboxDir address) =
            .ok () := rfl
          refine ⟨filesAt os (segmentFile 1 0 :: p) t₁, pathsAt os p, ?_⟩
          simp only [createMailbox, MailboxSystem.createMailbox, hnew, hfree, hdirs, hdir, ← hqueue]
          cases newQueue os site.cwd
              { sys.defaultConfig with storageDir := sys.mailboxDir address } t₁ with
          | mk result t₂ =>
              cases result with
              | error e => rfl
              | ok queue => rfl

end

/-! ## When nothing is left behind

A mailbox's directory is some way down from the base directory, so in a directory that
is there everything is in the base directory, if that is one.  Three cases are left: the
directory is there, it is made, or it cannot be. -/

section
variable {os : Os} {site : Site} {address : String} {sys : MailboxSystem} {p b : Place}

theorem traceless_iff_tidy : Traceless os site address sys ↔
    Tidy (InBase site sys) site.tree (created os site.cwd address sys site.tree) := by
  obtain ⟨fs, paths, hrefines⟩ := createMailbox_refines os site address sys
  rw [Traceless, created]
  generalize createMailbox os site.cwd address sys site.tree = r at hrefines
  obtain ⟨⟨result, sys'⟩, t⟩ := r
  cases result with
  | error e =>
      rcases MailboxSystem.createMailbox_cases hrefines.symm with ⟨e', -, rfl⟩ | ⟨m, hok, -⟩
      · exact ⟨fun h => h.2, fun h => ⟨rfl, h⟩⟩
      · cases hok
  | ok mailbox => exact Iff.rfl

theorem steps_of_base (hb : basePlace site sys = some b)
    (hinside : ¬ ['.', '.'] <:+: (sys.mailboxDir address).toList) : ∃ names : List String,
    (mailboxPath sys address).steps = names.map .down ++ (Path.parse sys.baseDir).steps ∧
      FileTree.walk site.tree ((mailboxPath sys address).start site.cwd)
        (Path.parse sys.baseDir).steps = .ok b := by
  have hdir : ∃ rest, sys.mailboxDir address = sys.baseDir ++ "/" ++ rest := by
    refine ⟨"mailbox_" ++ address.map (fun c => if c = '@' then '_' else c), ?_⟩
    have hslash : "/mailbox_" = "/" ++ "mailbox_" := by decide
    rw [MailboxSystem.mailboxDir, hslash, String.append_assoc, String.append_assoc,
      String.append_assoc]
  obtain ⟨rest, hdir⟩ := hdir
  rw [basePlace] at hb
  split at hb
  · cases hb
  rename_i hbase
  split at hb
  · rename_i b' hwalk
    cases hb
    obtain ⟨habsolute, hsteps⟩ := Path.parse_append hbase rest
    have hrest : ¬ ['.', '.'] <:+: rest.toList := by
      intro h
      refine hinside (h.trans ?_)
      rw [hdir, String.toList_append]
      exact (List.suffix_append _ _).isInfix
    obtain ⟨names, hnames⟩ := Path.parse_downs hrest
    refine ⟨names, by rw [mailboxPath, hdir, hsteps, hnames], ?_⟩
    rw [mailboxPath, hdir, Path.start, habsolute]
    exact hwalk
  · cases hb

theorem inBase_iff (hinside : ¬ ['.', '.'] <:+: (sys.mailboxDir address).toList)
    (hwalk : (mailboxPath sys address).walk site.tree site.cwd = .ok p) (name : String) :
    InBase site sys (name :: p) ↔ basePlace site sys ≠ none := by
  constructor
  · rintro ⟨b, hb, -⟩ hnone
    cases hb.symm.trans hnone
  · intro hsome
    obtain ⟨b, hb⟩ := Option.ne_none_iff_exists'.mp hsome
    obtain ⟨names, hsteps, hbase⟩ := steps_of_base hb hinside
    rw [Path.walk, hsteps] at hwalk
    refine ⟨b, hb, ?_⟩
    rw [FileTree.walk_downs hbase hwalk]
    exact List.suffix_append (name :: names) b

theorem segmentSize_le : MailboxSystem.segmentSize ≤ isizeMax := by decide

theorem Harmless.fits (h : Harmless os site address sys) (hproc : Proceeds os address sys)
    (hwalk : (mailboxPath sys address).walk site.tree site.cwd = .ok p)
    (hinside : ¬ ['.', '.'] <:+: (sys.mailboxDir address).toList)
    (hfound : os.existing p = none ∨ os.created p = none) :
    FileFits os site sys (segmentFile 1 0 :: p) := by
  cases h with
  | empty hempty => cases hproc.nonempty.symm.trans hempty
  | taken hlookup => cases hproc.free.symm.trans hlookup
  | untakable huntakable =>
      rcases huntakable with hnul | htakes
      · exact absurd hnul hproc.nonnull
      · exact absurd hproc.takes htakes
  | blocked herror hstarts => cases hwalk.symm.trans herror
  | rejected hwalk' hup => exact absurd hup hinside
  | unresolved hwalk' hexisting hcreated =>
      cases hwalk.symm.trans hwalk'
      exact absurd hfound (not_or.mpr ⟨hexisting, hcreated⟩)
  | file hwalk' hfits =>
      cases hwalk.symm.trans hwalk'
      exact hfits
  | fresh hsteps hdot hinside' hstarts hpassable hpermits hbase =>
      refine absurd hstarts (Path.createDirAll_eq_iff.mp ?_)
      rw [Path.createDirAll_of_walk hwalk]

theorem traceless_iff_of_walk (hproc : Proceeds os address sys)
    (hwalk : (mailboxPath sys address).walk site.tree site.cwd = .ok p) :
    Traceless os site address sys ↔ Harmless os site address sys := by
  rw [traceless_iff_tidy, hproc.created_eq, Path.createDirAll_of_walk hwalk]
  dsimp only
  by_cases hinside : ['.', '.'] <:+: (sys.mailboxDir address).toList
  · refine iff_of_true ?_ (.rejected hwalk hinside)
    rw [did_newQueue_rejected hinside]
    rfl
  have hqueue := hproc.did_newQueue hinside site.wellFormed site.cwd_dir hwalk
  by_cases hfound : os.existing p = none ∨ os.created p = none
  · have hfits : Harmless os site address sys ↔ FileFits os site sys (segmentFile 1 0 :: p) :=
      ⟨fun h => h.fits hproc hwalk hinside hfound, .file hwalk⟩
    rw [hqueue.2 hfound, tidy_mapped_iff segmentSize_le, inBase_iff hinside hwalk, hfits]
    exact Iff.rfl
  · rw [not_or] at hfound
    refine iff_of_true ?_ (.unresolved hwalk hfound.1 hfound.2)
    rw [hqueue.1 hfound.1 hfound.2]
    rfl

theorem Harmless.all_made (h : Harmless os site address sys) (hproc : Proceeds os address sys)
    {e : Failure} (hwalk : (mailboxPath sys address).walk site.tree site.cwd = .error e)
    (hstarts : (mailboxPath sys address).Starts os.mkdir site.tree site.cwd) :
    ∃ names : List String, (mailboxPath sys address).steps = names.map .down ∧
      (mailboxPath sys address).dot = false ∧
      ¬ ['.', '.'] <:+: (sys.mailboxDir address).toList ∧
      FileTree.Passable os.mkdir site.tree ((mailboxPath sys address).start site.cwd) names ∧
      Permits os (names ++ (mailboxPath sys address).start site.cwd) ∧
      basePlace site sys ≠ none := by
  cases h with
  | empty hempty => cases hproc.nonempty.symm.trans hempty
  | taken hlookup => cases hproc.free.symm.trans hlookup
  | untakable huntakable =>
      rcases huntakable with hnul | htakes
      · exact absurd hnul hproc.nonnull
      · exact absurd hproc.takes htakes
  | blocked herror hblocked => exact absurd hstarts hblocked
  | rejected hwalk' hup => cases hwalk.symm.trans hwalk'
  | unresolved hwalk' hexisting hcreated => cases hwalk.symm.trans hwalk'
  | file hwalk' hfits => cases hwalk.symm.trans hwalk'
  | @fresh names hsteps hdot hinside hstarts' hpassable hpermits hbase =>
      exact ⟨names, hsteps, hdot, hinside, hpassable, hpermits, hbase⟩

/-- What making the segment file comes to where nothing is there: it succeeds iff nothing
is refused, and nothing else is made. -/
theorem did_mapped_new (os : Os) {t : Tree} {file : Place} (h : t file = none) :
    ((did (mapped os file MailboxSystem.segmentSize t)).1 = true ↔
      os.openFile file = none ∧ os.setLen file = none ∧ os.mapFile file = none) ∧
    ((did (mapped os file MailboxSystem.segmentSize t)).1 = true →
      (did (mapped os file MailboxSystem.segmentSize t)).2 file ≠ none) ∧
    t.Grows (did (mapped os file MailboxSystem.segmentSize t)).2 ∧
    ∀ q, q ≠ file → (did (mapped os file MailboxSystem.segmentSize t)).2 q = t q := by
  have hothers : ∀ (e : FileTree.Entry (List UInt8)) (q : Place),
      q ≠ file → t.insert file e q = t q :=
    fun e q hq => FileTree.Tree.insert_of_ne hq e
  rw [did_mapped_missing h segmentSize_le]
  cases hopen : os.openFile file with
  | some e => exact ⟨by simp, by simp, .refl t, fun q _ => rfl⟩
  | none =>
      cases hset : os.setLen file with
      | some e => exact ⟨by simp, by simp, FileTree.Tree.grows_insert h _, hothers _⟩
      | none =>
          exact ⟨by simp, by simp, FileTree.Tree.grows_insert h _, hothers _⟩

theorem inBase_of_made_iff {t₁ t₂ : Tree}
    (hinside : ¬ ['.', '.'] <:+: (sys.mailboxDir address).toList)
    (hdirs : (mailboxPath sys address).createDirAll os.mkdir site.tree site.cwd = (.ok (), t₁))
    (hwalk₁ : (mailboxPath sys address).walk t₁ site.cwd = .ok p) (name : String)
    (hothers : ∀ q, q ≠ name :: p → t₂ q = t₁ q) (hfile : t₂ (name :: p) ≠ none)
    (hnone : site.tree (name :: p) = none) :
    (∀ q, site.tree q = none → t₂ q ≠ none → InBase site sys q) ↔ basePlace site sys ≠ none := by
  constructor
  · intro h hbase
    obtain ⟨b, hb, -⟩ := h _ hnone hfile
    cases hb.symm.trans hbase
  · intro hsome q hq hq₂
    obtain ⟨b, hb⟩ := Option.ne_none_iff_exists'.mp hsome
    obtain ⟨names, hsteps, hbase⟩ := steps_of_base hb hinside
    have hgrows := Path.createDirAll_grows os.mkdir site.tree site.cwd (mailboxPath sys address)
    rw [hdirs] at hgrows
    refine ⟨b, hb, ?_⟩
    by_cases hname : q = name :: p
    · rw [Path.walk, hsteps] at hwalk₁
      rw [hname, FileTree.walk_downs ((FileTree.walk_grows hgrows).1 b hbase) hwalk₁]
      exact List.suffix_append (name :: names) b
    · rw [hothers q hname] at hq₂
      have hmade := Path.createDirAll_made os.mkdir hbase hsteps q
      rw [hdirs, hq] at hmade
      exact (hmade.resolve_left hq₂).1

/-- Where the directories were made, the creation is harmless iff nothing more is refused
and there is a base directory. -/
theorem Proceeds.harmless_iff (hproc : Proceeds os address sys) {e : Failure} {t₁ : Tree}
    (hwalk : (mailboxPath sys address).walk site.tree site.cwd = .error e)
    (hstarts : (mailboxPath sys address).Starts os.mkdir site.tree site.cwd)
    (hdirs : (mailboxPath sys address).createDirAll os.mkdir site.tree site.cwd = (.ok (), t₁))
    (hwalk₁ : (mailboxPath sys address).walk t₁ site.cwd = .ok p)
    (hinside : ¬ ['.', '.'] <:+: (sys.mailboxDir address).toList) :
    Harmless os site address sys ↔ Permits os p ∧ basePlace site sys ≠ none := by
  constructor
  · intro h
    obtain ⟨names, hsteps, -, -, -, hpermits, hbase⟩ := h.all_made hproc hwalk hstarts
    exact ⟨Path.eq_of_walk hsteps hwalk₁ ▸ hpermits, hbase⟩
  · rintro ⟨hpermits, hbase⟩
    obtain ⟨names, hsteps⟩ : ∃ names : List String,
        (mailboxPath sys address).steps = names.map .down := Path.parse_downs hinside
    have hiff := Path.createDirAll_ok_iff site.wellFormed hsteps hstarts
    rw [hdirs] at hiff
    obtain ⟨hdot, hpassable⟩ := hiff.mp rfl
    rw [Path.eq_of_walk hsteps hwalk₁] at hpermits
    exact .fresh hsteps hdot hinside hstarts hpassable hpermits hbase

theorem traceless_iff_of_error (hproc : Proceeds os address sys) {e : Failure}
    (hwalk : (mailboxPath sys address).walk site.tree site.cwd = .error e) :
    Traceless os site address sys ↔ Harmless os site address sys := by
  rw [traceless_iff_tidy, hproc.created_eq]
  cases hdirs : (mailboxPath sys address).createDirAll os.mkdir site.tree site.cwd with
  | mk result t₁ =>
  have hmade : t₁ = site.tree ↔
      ¬ (mailboxPath sys address).Starts os.mkdir site.tree site.cwd := by
    rw [← Path.createDirAll_eq_iff, hdirs]
  have hgrows := Path.createDirAll_grows os.mkdir site.tree site.cwd (mailboxPath sys address)
  have ht := Path.createDirAll_wellFormed os.mkdir site.wellFormed site.cwd_dir
    (mailboxPath sys address)
  rw [hdirs] at hgrows ht
  by_cases hstarts : (mailboxPath sys address).Starts os.mkdir site.tree site.cwd
  case neg =>
    obtain rfl := hmade.mpr hstarts
    refine iff_of_true ?_ (.blocked hwalk hstarts)
    cases result with
    | error e' => rfl
    | ok done =>
        obtain ⟨p, hwalk'⟩ := Path.createDirAll_ok_walk hdirs
        cases hwalk.symm.trans hwalk'
  have hne : t₁ ≠ site.tree := fun h => hmade.mp h hstarts
  cases result with
  | error e' =>
      refine iff_of_false hne ?_
      intro h
      obtain ⟨names, hsteps, hdot, -, hpassable, -⟩ := h.all_made hproc hwalk hstarts
      have hiff := Path.createDirAll_ok_iff site.wellFormed hsteps hstarts
      rw [hdirs] at hiff
      cases hiff.mpr ⟨hdot, hpassable⟩
  | ok done =>
  dsimp only
  obtain ⟨p, hwalk₁⟩ := Path.createDirAll_ok_walk hdirs
  by_cases hinside : ['.', '.'] <:+: (sys.mailboxDir address).toList
  · rw [did_newQueue_rejected hinside]
    refine iff_of_false hne ?_
    intro h
    obtain ⟨names, -, -, hinside', -⟩ := h.all_made hproc hwalk hstarts
    exact hinside' hinside
  -- what is below a directory that was made is not there
  have hmissing : t₁ (segmentFile 1 0 :: p) = none := by
    obtain ⟨names, hsteps⟩ : ∃ names : List String,
        (mailboxPath sys address).steps = names.map .down := Path.parse_downs hinside
    have hbeyond := Path.createDirAll_beyond os.mkdir site.wellFormed hsteps hwalk
      (segmentFile 1 0)
    rwa [hdirs, ← Path.eq_of_walk hsteps hwalk₁] at hbeyond
  have hnone : site.tree (segmentFile 1 0 :: p) = none := by
    cases hthere : site.tree (segmentFile 1 0 :: p) with
    | none => rfl
    | some entry => cases hmissing.symm.trans (hgrows _ _ hthere)
  obtain ⟨hdone, hfile, hgrows₂, hothers⟩ := did_mapped_new os hmissing
  have hqueue := hproc.did_newQueue hinside ht (hgrows _ _ site.cwd_dir) hwalk₁
  rw [hproc.harmless_iff hwalk hstarts hdirs hwalk₁ hinside]
  by_cases hfound : os.existing p = none ∨ os.created p = none
  · rw [hqueue.2 hfound]
    generalize did (mapped os (segmentFile 1 0 :: p) MailboxSystem.segmentSize t₁) = r
      at hdone hfile hgrows₂ hothers
    obtain ⟨success, t₂⟩ := r
    cases success with
    | true =>
        have hpermits : Permits os p := ⟨hfound, hdone.mp rfl⟩
        rw [and_iff_right hpermits]
        exact inBase_of_made_iff hinside hdirs hwalk₁ _ hothers (hfile rfl) hnone
    | false =>
        refine iff_of_false (hgrows.ne hgrows₂ hne) ?_
        rintro ⟨hpermits, -⟩
        cases hdone.mpr hpermits.2
  · rw [not_or] at hfound
    rw [hqueue.1 hfound.1 hfound.2]
    refine iff_of_false hne ?_
    rintro ⟨hpermits, -⟩
    exact not_or.mpr hfound hpermits.1

/-- **When nothing is left behind.** -/
theorem traceless_iff (os : Os) (site : Site) (address : String) (sys : MailboxSystem) :
    Traceless os site address sys ↔ Harmless os site address sys := by
  by_cases hproc : Proceeds os address sys
  · cases hwalk : (mailboxPath sys address).walk site.tree site.cwd with
    | ok p => exact traceless_iff_of_walk hproc hwalk
    | error e => exact traceless_iff_of_error hproc hwalk
  · rw [traceless_iff_tidy, created_early hproc]
    refine iff_of_true rfl ?_
    cases hempty : address.isEmpty with
    | true => exact .empty hempty
    | false =>
        cases hfree : sys.mailboxes.lookup ⟨address⟩ with
        | some queue => exact .taken hfree
        | none =>
            refine .untakable (or_iff_not_and_not.mpr ?_)
            rintro ⟨hnul, htakes⟩
            exact hproc ⟨hempty, hfree, hnul, not_not.mp htakes⟩

end

open Delivery (emptySystem)

/-- A root directory with one directory in it. -/
def dataSite : Site where
  tree p := if p = [] ∨ p = ["data"] then some .dir else none
  wellFormed := by
    refine ⟨rfl, ?_⟩
    intro n p hp
    have hdata : n = "data" ∧ p = [] := by
      by_contra hnot
      refine hp (if_neg ?_)
      rintro (h | h)
      · cases h
      · cases h
        exact hnot ⟨rfl, rfl⟩
    rw [hdata.2]
    rfl
  cwd := []
  cwd_dir := rfl

/-- **The check comes too late.**  The address leads out of the base directory and is
rejected, but the directory it leads to has been made. -/
theorem outside_created :
    (createMailbox Os.willing dataSite.cwd "x/../../outside" emptySystem dataSite.tree).1.1 =
      .error (.persistQ "storage_dir cannot contain '..' (directory traversal)") ∧
    dataSite.tree ["outside"] = none ∧
    (createMailbox Os.willing dataSite.cwd "x/../../outside" emptySystem dataSite.tree).2
      ["outside"] = some .dir ∧
    ¬ Traceless Os.willing dataSite "x/../../outside" emptySystem := by
  have herror : (createMailbox Os.willing dataSite.cwd "x/../../outside" emptySystem
      dataSite.tree).1.1 =
        .error (.persistQ "storage_dir cannot contain '..' (directory traversal)") := by
    decide +kernel
  have hbefore : dataSite.tree ["outside"] = none := by decide +kernel
  have hafter : (createMailbox Os.willing dataSite.cwd "x/../../outside" emptySystem
      dataSite.tree).2 ["outside"] = some .dir := by
    decide +kernel
  refine ⟨herror, hbefore, hafter, ?_⟩
  intro h
  rw [Traceless] at h
  split at h
  · rename_i heq
    rw [heq, h.2] at hafter
    cases hbefore.symm.trans hafter
  · rename_i heq
    rw [heq] at herror
    cases herror

end Dolda.Creation
