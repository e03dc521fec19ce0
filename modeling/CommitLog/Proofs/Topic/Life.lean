import CommitLog.Proofs.Topic.CrashRecovery
import CommitLog.Proofs.Topic.Serving

/-!
# The life of a topic

A topic is opened, appended to, closed and opened again, under other settings if need be, while
other things happen elsewhere on the disk. `Step` says what can happen next and `Reachable` what
the life of a topic can come to. Through all of it the files, the indexes and the tails tell of the
same commits: `no_drift`.

Between two services only the files are there, and `Rests` says that they hold the commits so far;
during a service the actor is in order. Either says enough to come to the other.
-/

namespace CommitLog.Topic

open CommitLog.Disk (Place Keeps top)
open CommitLog.Frame (IsCommit)
open CommitLog.Partition (encodeAll entryCount scanFile)

/-- A topic in the course of its life. -/
structure Life where
  /-- The topic in service, while it is open. -/
  service : Option Service := none
  env : Env := {}
  /-- The commits of the services that there have been. -/
  past : List RawCommit := []

/-- The commits of a topic so far, in order. -/
def Life.commits (life : Life) : List RawCommit :=
  life.past ++ (life.service.map Service.commits).getD []

/-- The places of a topic: its directory, and what is in it. -/
def Belongs (disk : Disk) (home place : Place) : Prop :=
  place = home ∨ ∃ directory, disk.entryAt? home = some (.directory directory) ∧
    place.directory = directory

/-- What can happen to a topic next. It is opened under any valid settings with the same partitions
and the same limit. -/
inductive Step (config : Config) (root : Path) (home : Place) : Life → Life → Prop where
  | opened {life : Life} {settings : Config} {topic : Topic} {disk : Disk}
      (idle : life.service = none) (valid : settings.isValid = true)
      (partitions_eq : settings.partitions = config.partitions)
      (limit_eq : settings.maxEntryBytes = config.maxEntryBytes)
      (run : recover settings root home.name life.env.disk = (.ok topic, disk)) :
      Step config root home life
        { life with
          service := some (.start topic settings.actorMailbox)
          env := { life.env with disk } }
  | notOpened {life : Life} {settings : Config} {failure : LogError} {disk : Disk}
      (idle : life.service = none) (valid : settings.isValid = true)
      (partitions_eq : settings.partitions = config.partitions)
      (limit_eq : settings.maxEntryBytes = config.maxEntryBytes)
      (run : recover settings root home.name life.env.disk = (.error failure, disk)) :
      Step config root home life { life with env := { life.env with disk } }
  /-- A caller submits attempts, or another unit of work. -/
  | submitted {life : Life} {service : Service} {task : Task}
      (running : life.service = some service) (submission : IsSubmission (.run task)) :
      Step config root home life { life with service := some (service.submit task).2 }
  /-- The actor goes on. -/
  | settled {life : Life} {service : Service} (running : life.service = some service) :
      Step config root home life
        { life with
          service := some (service.settle life.env).1
          env := (service.settle life.env).2 }
  /-- A consumer does something to the queue. -/
  | queueChanged {life : Life} {service : Service} (running : life.service = some service)
      (change : Queue RawCommit → Queue RawCommit) :
      Step config root home life { life with service := some (service.mapQueue change) }
  | queueClosed {life : Life} {service : Service} (running : life.service = some service) :
      Step config root home life
        { life with
          service := some (service.closeQueue life.env).1
          env := (service.closeQueue life.env).2 }
  | shut {life : Life} {service : Service} (running : life.service = some service) :
      Step config root home life
        { life with
          service := some (service.shut life.env).1
          env := (service.shut life.env).2 }
  /-- The service comes to an end, closed or not. -/
  | left {life : Life} :
      Step config root home life { life with service := none, past := life.commits }
  /-- Something happens that is no concern of the topic. -/
  | elsewhere {life : Life} {env : Env}
      (keeps : Keeps life.env.disk env.disk (Belongs life.env.disk home)) :
      Step config root home life { life with env }

/-- A topic that has never been opened: there is nothing of its name below the root. -/
structure Fresh (root : Path) (home : Place) (life : Life) : Prop where
  isValidName : isValidName home.name = true
  service : life.service = none
  past : life.past = []
  root : life.env.disk.resolve root = .ok (.directory home.directory)
  entry : life.env.disk.entryAt? home = none
  sound : life.env.disk.Sound
  reliable : life.env.disk.Reliable

/-- What the life of a topic can come to. -/
inductive Reachable (config : Config) (root : Path) (home : Place) : Life → Prop where
  | fresh {life : Life} (h : Fresh root home life) : Reachable config root home life
  | step {life next : Life} (h : Reachable config root home life)
      (hstep : Step config root home life next) : Reachable config root home next

variable {config settings : Config} {root : Path} {home : Place} {life next : Life} {disk : Disk}
  {commits : List RawCommit} {service : Service} {topic : Topic} {number : UInt32} {p : Partition}

/-! ## At rest -/

/-- The files of a topic that is not open hold its commits. -/
structure Rests (config : Config) (root : Path) (home : Place) (disk : Disk)
    (commits : List RawCommit) : Prop where
  history : IsHistory config commits
  stored : Stored disk home (partitionNumbers config) fun number =>
    encodeAll (framesIn commits number)
  named : ∀ number, number < config.partitions → framesIn commits number = [] ∨
    ∃ directory, disk.entryAt? home = some (.directory directory) ∧
      disk.Names (filePath root home.name number) (filePlace directory number)

theorem Rests.fresh (hentry : disk.entryAt? home = none) : Rests config root home disk [] where
  history := isHistory_nil config
  stored := .missing hentry fun _ _ => rfl
  named _ _ := Or.inl rfl

theorem Rests.named_keeps {after : Disk} {kept : Place → Prop}
    (h : Rests config root home disk commits) (hsound : disk.Sound)
    (hkeeps : Keeps disk after kept) (hnumber : number < config.partitions) :
    framesIn commits number = [] ∨ ∃ directory, after.entryAt? home = some (.directory directory) ∧
      after.Names (filePath root home.name number) (filePlace directory number) := by
  rcases h.named number hnumber with hnone | ⟨directory, hentry, hnames⟩
  · exact Or.inl hnone
  · exact Or.inr ⟨directory, hkeeps.entryAt?_some _ _ hentry, hkeeps.names hsound hnames⟩

theorem Rests.keeps {after : Disk} (h : Rests config root home disk commits) (hsound : disk.Sound)
    (hkeeps : Keeps disk after (Belongs disk home)) : Rests config root home after commits where
  history := h.history
  stored := by
    cases h.stored with
    | missing entry empty =>
      exact .missing (by rw [hkeeps.entryAt?_kept _ (Or.inl rfl), entry]) empty
    | there entry files =>
      refine .there (hkeeps.entryAt?_some _ _ entry) fun number hnumber => ?_
      exact hkeeps.stores (Or.inr ⟨_, entry, rfl⟩) (files number hnumber)
  named _ hnumber := h.named_keeps hsound hkeeps hnumber

/-- A topic in service comes to rest without a change. -/
theorem Agrees.rests {directory : Nat}
    (h : Agrees config topic disk ⟨root.child home.name, directory⟩ commits)
    (hentry : disk.entryAt? home = some (.directory directory)) :
    Rests config root home disk commits where
  history := h.history
  stored := .there hentry fun number hnumber => by
    obtain ⟨p, -, -, hp⟩ := h.holds.exists_partition (mem_partitionNumbers.1 hnumber)
    exact hp.stores
  named number hnumber := by
    obtain ⟨p, hget, hsame, hp⟩ := h.holds.exists_partition hnumber
    have hpath := h.holds.path_eq p (List.mem_of_getElem? hget)
    have hnames := hp.names
    rw [hpath, hsame] at hnames
    exact Or.inr ⟨directory, hentry, hnames⟩

/-- **The file of a partition is the frames of its commits**; it may be missing while there are
none. -/
theorem Rests.read (h : Rests config root home disk commits)
    (hname : isValidName home.name = true)
    (hroot : disk.follow (.directory top) root.segments = .ok (.directory home.directory))
    (hnumber : number < config.partitions) :
    disk.read (filePath root home.name number) = .ok (encodeAll (framesIn commits number)) ∨
      (commitsIn commits number = [] ∧
        ∃ failure, disk.read (filePath root home.name number) = .error failure) := by
  have hfiles : ∀ directory, disk.entryAt? home = some (.directory directory) →
      disk.Stores (filePlace directory number) (encodeAll (framesIn commits number)) := by
    intro directory hdirectory
    cases h.stored with
    | missing entry => simp [entry] at hdirectory
    | there entry files =>
      rw [entry] at hdirectory
      obtain rfl := Disk.Entry.directory.inj (Option.some.inj hdirectory)
      exact files number (mem_partitionNumbers.2 hnumber)
  have hempty : encodeAll (framesIn commits number) = [] → commitsIn commits number = [] := by
    intro hbytes
    exact List.map_eq_nil_iff.1 (Partition.encodeAll_eq_nil hbytes)
  rcases h.named number hnumber with hnone | ⟨directory, hentry, hnames⟩
  · cases hread : disk.read (filePath root home.name number) with
    | error failure => exact Or.inr ⟨List.map_eq_nil_iff.1 hnone, failure, rfl⟩
    | ok bytes =>
      -- A file that is read stands in the directory of the topic, whose files are known.
      cases hresolve : disk.resolve (filePath root home.name number) with
      | error failure => simp [Disk.read, hresolve] at hread
      | ok entry =>
        obtain ⟨there, hthere, -, -, hfile⟩ :=
          Disk.exists_names_of_resolve (isName_fileName number) hresolve
        obtain ⟨here, hhere, -, hdirectory⟩ :=
          Disk.exists_entry_of_follow_child (isName_of_isValidName hname) hthere
        rw [hroot] at hhere
        obtain rfl := Disk.Entry.directory.inj (Except.ok.inj hhere)
        rcases hfiles there hdirectory with ⟨found, hfound, hcontent⟩ | ⟨hmissing, -⟩
        · rw [show disk.entryAt? ⟨there, fileName number⟩ = _ from hfound] at hfile
          obtain rfl := Option.some.inj hfile
          unfold Disk.read at hread
          rw [hresolve] at hread
          rw [← hcontent]
          exact Or.inl hread.symm
        · rw [show disk.entryAt? ⟨there, fileName number⟩ = _ from hmissing] at hfile
          simp at hfile
  · rcases hfiles directory hentry with ⟨file, hfile, hcontent⟩ | ⟨hfile, hbytes⟩
    · rw [Disk.read_of_file hnames (short_fileName number) hfile, hcontent]
      exact Or.inl rfl
    · rw [Disk.read_of_none hnames (short_fileName number) hfile]
      exact Or.inr ⟨hempty hbytes, _, rfl⟩

/-! ## In service -/

/-- Files, indexes and commits of a topic are together, whether it is open or not. -/
structure Consistent (config : Config) (root : Path) (home : Place) (life : Life) : Prop where
  isValidName : isValidName home.name = true
  sound : life.env.disk.Sound
  reliable : life.env.disk.Reliable
  follows : life.env.disk.follow (.directory top) root.segments = .ok (.directory home.directory)
  rests : life.service = none → Rests config root home life.env.disk life.past
  serves : ∀ service, life.service = some service → ∃ directory,
    life.env.disk.entryAt? home = some (.directory directory) ∧
      service.InOrder config ⟨root.child home.name, directory⟩ life.past life.env

/-- A topic that is opened serves the commits that it had; one that is not has them still. -/
theorem Rests.recover {result : Except LogError Topic} {after : Disk}
    (h : Rests config root home disk commits) (hsound : disk.Sound) (hreliable : disk.Reliable)
    (hroot : disk.follow (.directory top) root.segments = .ok (.directory home.directory))
    (hvalid : settings.isValid = true) (hpartitions : settings.partitions = config.partitions)
    (hlimit : settings.maxEntryBytes = config.maxEntryBytes)
    (hrun : recover settings root home.name disk = (result, after)) :
    after.Sound ∧ after.Reliable ∧
      after.follow (.directory top) root.segments = .ok (.directory home.directory) ∧
      Rests config root home after commits ∧
      ∀ topic, result = .ok topic → ∃ directory,
        after.entryAt? home = some (.directory directory) ∧
          Agrees config topic after ⟨root.child home.name, directory⟩ commits ∧
          topic.queue = .ofFanout settings.fanout := by
  have hnumbers := partitionNumbers_congr hpartitions
  have hstored : Stored disk home (partitionNumbers settings) fun number =>
      encodeAll (framesIn commits number) ++ [] := by
    simp only [List.append_nil, hnumbers]
    exact h.stored
  have hframes : ∀ number ∈ partitionNumbers settings, ∀ frame ∈ framesIn commits number,
      IsCommit settings.maxEntryBytes frame := by
    intro number _
    rw [hlimit]
    exact h.history.isCommit_framesIn number
  obtain ⟨_, _, hagain, hrecovered⟩ := recover_cases hroot hsound hreliable hstored hframes
    (fun _ _ => .zeros 0) fun _ _ => Or.inl rfl
  obtain ⟨rfl, rfl⟩ := Prod.mk.inj (hrun.symm.trans hagain)
  have hkeeps := hrecovered.keeps
  refine ⟨hkeeps.sound, hkeeps.reliable, hkeeps.follow hsound hsound.top_lt hroot,
    ⟨h.history, ?_, fun _ hnumber => h.named_keeps hsound hkeeps hnumber⟩, ?_⟩
  · obtain ⟨data, hafter, hdata⟩ := hrecovered.stored
    rw [hnumbers] at hafter hdata
    have hsame : ∀ number ∈ partitionNumbers config,
        data number = encodeAll (framesIn commits number) := by
      intro number hnumber
      rcases hdata number hnumber with hdata | hdata
      · exact hdata
      · rw [hdata, List.append_nil]
    cases hafter with
    | missing entry empty =>
      exact .missing entry fun number hnumber => by
        rw [← hsame number hnumber, empty number hnumber]
    | there entry files =>
      exact .there entry fun number hnumber => by
        rw [← hsame number hnumber]
        exact files number hnumber
  · intro topic htopic
    obtain ⟨-, hmax, -, hqueue, directory, hentry, hholds, -⟩ := hrecovered.opened topic htopic
    rw [hnumbers] at hholds
    refine ⟨directory, hentry, ⟨hkeeps.sound, hkeeps.reliable, ?_, hmax.trans hlimit, h.history,
      hholds⟩, hqueue⟩
    rw [← hlimit]
    exact le_maxFieldLength_of_isValid hvalid

theorem inOrder_start {folder : Folder} {env : Env} (depth : Nat)
    (h : Agrees config topic env.disk folder commits) :
    (Service.start topic depth).InOrder config folder commits env where
  waiting := by simp [Service.start, Actor.start]
  serving := by simp [Service.start, Actor.start]
  agrees := by
    show Agrees config topic env.disk folder (commits ++ ([] ++ []))
    rw [List.append_nil, List.append_nil]
    exact h

namespace Consistent

theorem fresh (h : Fresh root home life) : Consistent config root home life where
  isValidName := h.isValidName
  sound := h.sound
  reliable := h.reliable
  follows := Disk.follow_of_resolve h.root
  rests _ := by
    rw [h.past]
    exact .fresh h.entry
  serves service hservice := by simp [h.service] at hservice

/-- What a service does leaves everything consistent if it leaves the service in order. -/
theorem serve (h : Consistent config root home life) {after : Service} {env : Env}
    (hrunning : life.service = some service)
    (hstep : ∀ folder, service.InOrder config folder life.past life.env →
      after.InOrder config folder life.past env ∧
        Keeps life.env.disk env.disk (Place.directory · ≠ folder.directory)) :
    Consistent config root home { life with service := some after, env } := by
  obtain ⟨directory, hentry, hserves⟩ := h.serves service hrunning
  obtain ⟨hafter, hkeeps⟩ := hstep _ hserves
  refine ⟨h.isValidName, hkeeps.sound, hkeeps.reliable,
    hkeeps.follow h.sound h.sound.top_lt h.follows, by simp, ?_⟩
  intro other hother
  obtain rfl := Option.some.inj hother
  exact ⟨directory, hkeeps.entryAt?_some _ _ hentry, hafter⟩

theorem serveInPlace (h : Consistent config root home life) {after : Service}
    (hrunning : life.service = some service)
    (hstep : ∀ folder, service.InOrder config folder life.past life.env →
      after.InOrder config folder life.past life.env) :
    Consistent config root home { life with service := some after } :=
  h.serve hrunning fun folder hserves =>
    ⟨hstep folder hserves, Keeps.refl h.sound h.reliable _⟩

/-- A topic has commits to rest on, in service as well. -/
theorem rest (h : Consistent config root home life) :
    Rests config root home life.env.disk life.commits := by
  unfold Life.commits
  cases hservice : life.service with
  | none =>
    rw [Option.map_none, Option.getD_none, List.append_nil]
    exact h.rests hservice
  | some service =>
    obtain ⟨directory, hentry, hserves⟩ := h.serves service hservice
    exact hserves.agrees.rests hentry

/-- **Whatever happens next, files, indexes and commits stay together.** -/
theorem step (h : Consistent config root home life) (hstep : Step config root home life next) :
    Consistent config root home next := by
  cases hstep with
  | opened idle valid partitions_eq limit_eq run =>
    obtain ⟨hsound, hreliable, hroot, -, hopened⟩ := (h.rests idle).recover h.sound h.reliable
      h.follows valid partitions_eq limit_eq run
    obtain ⟨directory, hentry, hagrees, -⟩ := hopened _ rfl
    refine ⟨h.isValidName, hsound, hreliable, hroot, by simp, ?_⟩
    intro service hservice
    obtain rfl := Option.some.inj hservice
    exact ⟨directory, hentry, inOrder_start _ hagrees⟩
  | notOpened idle valid partitions_eq limit_eq run =>
    obtain ⟨hsound, hreliable, hroot, hrests, -⟩ := (h.rests idle).recover h.sound h.reliable
      h.follows valid partitions_eq limit_eq run
    refine ⟨h.isValidName, hsound, hreliable, hroot, fun _ => hrests, ?_⟩
    intro service hservice
    simp [idle] at hservice
  | submitted running submission =>
    exact h.serveInPlace running fun _ hserves => Service.inOrder_submit hserves submission
  | settled running => exact h.serve running fun _ hserves => Service.inOrder_settle hserves
  | queueChanged running change =>
    exact h.serveInPlace running fun _ hserves => Service.inOrder_mapQueue hserves change
  | queueClosed running => exact h.serve running fun _ hserves => Service.inOrder_closeQueue hserves
  | shut running => exact h.serve running fun _ hserves => Service.inOrder_shut hserves
  | left =>
    exact ⟨h.isValidName, h.sound, h.reliable, h.follows, fun _ => h.rest, by simp⟩
  | elsewhere keeps =>
    refine ⟨h.isValidName, keeps.sound, keeps.reliable,
      keeps.follow h.sound h.sound.top_lt h.follows,
      fun hservice => (h.rests hservice).keeps h.sound keeps, ?_⟩
    intro service hservice
    obtain ⟨directory, hentry, hserves⟩ := h.serves service hservice
    exact ⟨directory, keeps.entryAt?_some _ _ hentry, hserves.waiting, hserves.serving,
      hserves.agrees.keeps keeps fun place hplace => Or.inr ⟨directory, hentry, hplace⟩⟩

end Consistent

theorem Reachable.consistent (h : Reachable config root home life) :
    Consistent config root home life := by
  induction h with
  | fresh h => exact .fresh h
  | step _ hstep ih => exact ih.step hstep

/-! ## No drift -/

/-- The index and the tail of a partition are those of a row of commits. -/
structure Indexes (p : Partition) (commits : List RawCommit) : Prop where
  length_eq : p.frames.length = commits.length
  /-- Each commit is listed under its start, with the place and the length of its frame. -/
  entry : ∀ (k : Nat) (commit : RawCommit), commits[k]? = some commit →
    p.frames[k]? = some ⟨commit.expected.offset.toNat,
      (encodeAll ((commits.take k).map Commit.frame)).length, commit.frame.encode.length,
      commit.entries.length⟩
  tailBytes : p.tailBytes = (encodeAll (commits.map Commit.frame)).length
  tailOffset : p.tailOffset = total (commits.map fun commit => commit.entries.length)

theorem entryCount_take_le (frames : List Frame) (k : Nat) :
    entryCount (frames.take k) ≤ entryCount frames := by
  have hsplit := Partition.entryCount_append (frames.take k) (frames.drop k)
  rw [List.take_append_drop] at hsplit
  omega

theorem indexes_of_holds {place : Place} (hsound : disk.Sound)
    (hrow : commitsIn commits number = commitsFrom number 0 (framesIn commits number))
    (h : p.Holds disk place (framesIn commits number)) : Indexes p (commitsIn commits number) where
  length_eq := by
    rw [h.index, Partition.locations, Partition.length_locate, List.length_map, framesIn,
      List.length_map]
  entry k commit hcommit := by
    have hframe : (framesIn commits number)[k]? = some commit.frame := by
      unfold framesIn
      rw [List.getElem?_map, hcommit, Option.map_some]
    have hstart : commit.expected.offset.toNat
        = entryCount ((framesIn commits number).take k) := by
      rw [hrow, Partition.getElem?_commitsFrom, hframe, Option.map_some, Nat.zero_add] at hcommit
      rw [← Option.some.inj hcommit]
      have hcount := entryCount_take_le (framesIn commits number) k
      have hlength := Partition.entryCount_le_length (framesIn commits number)
      have hmax := h.stores.length_le hsound
      have hlimit : Disk.maxFileLength < 2 ^ 64 := by decide
      show (UInt64.ofNat _).toNat = _
      rw [UInt64.toNat_ofNat']
      exact Nat.mod_eq_of_lt (by omega)
    rw [h.index, Partition.getElem?_locations, hframe, Option.map_some, hstart, framesIn,
      List.map_take]
    rfl
  tailBytes := h.tailBytes
  tailOffset := by
    rw [h.tailOffset, entryCount, framesIn, List.map_map]
    rfl

/-- Scanning all files again confirms the tails. -/
theorem verify_of_agrees {folder : Folder} (h : Agrees config topic disk folder commits) :
    topic.verify disk = .ok topic.tails :=
  verify_of_partitions fun p hp => Partition.verify_of_holds (h.holds.partition p hp)
    (h.maxEntryBytes ▸ h.history.isCommit_framesIn p.number) topic.maxMapBytes

/-- **The file, the index and the tail never drift apart.** Whatever has happened to a topic, every
file is the frames of the commits of its partition, in order; and while the topic is open, its
indexes and tails are those of the same commits, and scanning the files again finds just them. -/
theorem no_drift (h : Reachable config root home life) :
    (∀ number, number < config.partitions →
      life.env.disk.read (filePath root home.name number)
          = .ok (encodeAll (framesIn life.commits number)) ∨
        (commitsIn life.commits number = [] ∧
          ∃ failure, life.env.disk.read (filePath root home.name number) = .error failure)) ∧
    ∀ service, life.service = some service →
      (∀ number, number < config.partitions →
        ∃ p, service.topic.partition number = .ok p ∧ p.path = filePath root home.name number ∧
          Indexes p (commitsIn life.commits number) ∧
          ∀ maxWindow, scanFile life.env.disk p.path config.maxEntryBytes maxWindow
            = .ok ⟨p.frames, p.tailBytes, p.tailOffset, none⟩) ∧
      service.topic.verify life.env.disk = .ok service.topic.tails := by
  have hlife := h.consistent
  refine ⟨fun number hnumber => hlife.rest.read hlife.isValidName hlife.follows hnumber, ?_⟩
  intro service hservice
  obtain ⟨directory, -, hserves⟩ := hlife.serves service hservice
  have hcommits : life.commits = life.past ++ service.commits := by
    unfold Life.commits
    rw [hservice, Option.map_some, Option.getD_some]
  have hagrees : Agrees config service.topic life.env.disk ⟨root.child home.name, directory⟩
      life.commits := by
    rw [hcommits]
    exact hserves.agrees
  refine ⟨?_, verify_of_agrees hagrees⟩
  intro number hnumber
  obtain ⟨p, hget, hsame, hp⟩ := hagrees.holds.exists_partition hnumber
  have hpath := hagrees.holds.path_eq p (List.mem_of_getElem? hget)
  rw [hsame] at hpath
  refine ⟨p, by rw [partition, hget], hpath,
    indexes_of_holds hagrees.sound (hagrees.history.row number) hp, ?_⟩
  intro maxWindow
  rw [Partition.scanFile_of_holds hp (hagrees.history.isCommit_framesIn number), hp.index,
    hp.tailBytes, hp.tailOffset]

/-- A topic on a new disk that is opened and appended to once. -/
theorem no_drift_of_one_commit :
    ∃ life, Reachable {} ⟨["", ""]⟩ ⟨0, "t"⟩ life ∧ life.commits.length = 1 ∧
      life.env.disk.read (filePath ⟨["", ""]⟩ "t" 0)
        = .ok (encodeAll (framesIn life.commits 0)) := by
  let attempt : RawAttempt := { key := [107], entries := [[118]], expected := .origin 0 }
  have hcount : ((recover {} ⟨["", ""]⟩ "t" {}).1.toOption.map fun topic =>
      (((Service.start topic 1024).submit (.append [attempt])).2.settle
        { disk := (recover {} ⟨["", ""]⟩ "t" {}).2 }).1.commits.map Commit.partition)
      = some [0] := by decide +kernel
  have hfresh : Fresh ⟨["", ""]⟩ ⟨0, "t"⟩ {} :=
    ⟨by decide, rfl, rfl, rfl, Disk.entryAt?_new _, Disk.sound_new, by simp [Disk.Reliable]⟩
  rcases hrun : recover {} ⟨["", ""]⟩ "t" {} with ⟨result, disk⟩
  rw [hrun] at hcount
  cases result with
  | error failure => simp [Except.toOption] at hcount
  | ok topic =>
    have hlife := (((Reachable.fresh hfresh).step (.opened rfl (by decide) rfl rfl hrun)).step
      (.submitted rfl (.append [attempt]))).step (.settled rfl)
    generalize hlast : Life.mk _ _ _ = last at hlife
    have hone : last.commits.map Commit.partition = [0] := by
      rw [← hlast]
      exact Option.some.inj hcount
    refine ⟨last, hlife, by rw [← List.length_map, hone]; rfl, ?_⟩
    rcases (no_drift hlife).1 0 (by decide) with hread | ⟨hnone, -⟩
    · exact hread
    · cases hcommits : last.commits with
      | nil => simp [hcommits] at hone
      | cons commit later =>
        rw [hcommits, List.map_cons] at hone
        have hzero := (List.cons.inj hone).1
        rw [hcommits, commitsIn, List.filter_cons_of_pos (by rw [hzero]; rfl)] at hnone
        simp at hnone

end CommitLog.Topic
