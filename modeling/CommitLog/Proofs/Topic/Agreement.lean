import CommitLog.Proofs.Topic.Append
import CommitLog.Topic.Work

/-!
# Files, indexes and commits agree

The history of a topic is the row of all its commits. `Agrees` says that files and indexes tell of
the commits of the history and of nothing else, each partition of its own. Everything that a topic
does keeps that up: appending moves all three on together, and publishing, registering consumers
and releasing the files have nothing to do with any of them.
-/

namespace CommitLog.Topic

open CommitLog.Disk (Place Keeps Edits)
open CommitLog.Frame (IsCommit)
open CommitLog.Partition (encodeAll entryCount)

variable {config : Config} {topic after : Topic} {disk : Disk} {folder : Folder}
  {commits : List RawCommit} {env later : Env}

/-- Commits that a topic with these settings can have made, in order: each is small enough, and
starts where the one before it in its partition ends. -/
structure IsHistory (config : Config) (commits : List RawCommit) : Prop where
  lt : ∀ commit ∈ commits, commit.partition < config.partitions
  isCommit : ∀ commit ∈ commits, IsCommit config.maxEntryBytes commit.frame
  row : ∀ number, commitsIn commits number = commitsFrom number 0 (framesIn commits number)

theorem isHistory_nil (config : Config) : IsHistory config [] where
  lt := by simp
  isCommit := by simp
  row _ := rfl

theorem IsHistory.append (h : IsHistory config commits) {commit : RawCommit}
    (hlt : commit.partition < config.partitions)
    (hcommit : IsCommit config.maxEntryBytes commit.frame)
    (hplace : commit
      = commitAt commit.partition (entryCount (framesIn commits commit.partition)) commit.frame) :
    IsHistory config (commits ++ [commit]) where
  lt other hother := by
    rcases List.mem_append.1 hother with hother | hother
    · exact h.lt other hother
    · rw [List.mem_singleton.1 hother]
      exact hlt
  isCommit other hother := by
    rcases List.mem_append.1 hother with hother | hother
    · exact h.isCommit other hother
    · rw [List.mem_singleton.1 hother]
      exact hcommit
  row number := by
    rw [Partition.framesIn_append, Partition.commitsFrom_append, Partition.commitsIn_append,
      ← h.row number, Partition.framesIn_singleton, Partition.commitsIn_singleton, Nat.zero_add]
    split
    next hnumber =>
      subst hnumber
      rw [Partition.commitsFrom_singleton, ← hplace]
    next => rfl

theorem IsHistory.isCommit_framesIn (h : IsHistory config commits) (number : UInt32) :
    ∀ frame ∈ framesIn commits number, IsCommit config.maxEntryBytes frame := by
  intro frame hframe
  obtain ⟨commit, hcommit, rfl⟩ := Partition.mem_framesIn hframe
  exact h.isCommit commit hcommit

theorem IsHistory.congr {other : Config} (h : IsHistory config commits)
    (hpartitions : other.partitions = config.partitions)
    (hmax : other.maxEntryBytes = config.maxEntryBytes) : IsHistory other commits where
  lt := by
    rw [hpartitions]
    exact h.lt
  isCommit := by
    rw [hmax]
    exact h.isCommit
  row := h.row

/-- Files and indexes tell of the commits of the history. -/
structure Agrees (config : Config) (topic : Topic) (disk : Disk) (folder : Folder)
    (commits : List RawCommit) : Prop where
  sound : disk.Sound
  reliable : disk.Reliable
  limit : config.maxEntryBytes ≤ Frame.maxFieldLength
  maxEntryBytes : topic.maxEntryBytes = config.maxEntryBytes
  history : IsHistory config commits
  holds : topic.Holds disk folder (partitionNumbers config) (framesIn commits)

namespace Agrees

/-- Only the partitions of a topic count. -/
theorem of_partitions (h : Agrees config topic disk folder commits)
    (hpartitions : after.partitions = topic.partitions)
    (hmax : after.maxEntryBytes = topic.maxEntryBytes) :
    Agrees config after disk folder commits where
  sound := h.sound
  reliable := h.reliable
  limit := h.limit
  maxEntryBytes := by rw [hmax, h.maxEntryBytes]
  history := h.history
  holds := by
    refine ⟨?_, ?_, ?_⟩
    · rw [hpartitions]
      exact h.holds.numbers_eq
    · rw [hpartitions]
      exact h.holds.path_eq
    · rw [hpartitions]
      exact h.holds.partition

/-- What happens elsewhere on the disk is no concern of a topic. -/
theorem keeps {last : Disk} {kept : Place → Prop} (h : Agrees config topic disk folder commits)
    (hkeeps : Keeps disk last kept)
    (hplaces : ∀ place, place.directory = folder.directory → kept place) :
    Agrees config topic last folder commits where
  sound := hkeeps.sound
  reliable := hkeeps.reliable
  limit := h.limit
  maxEntryBytes := h.maxEntryBytes
  history := h.history
  holds := h.holds.keeps h.sound hkeeps fun _ _ => hplaces _ rfl

end Agrees

/-! ## Appending -/

theorem commitsOf_cons (result : Except LogError RawOutcome)
    (results : List (Except LogError RawOutcome)) :
    commitsOf (result :: results)
      = (result.toOption.bind Outcome.commit?).toList ++ commitsOf results := by
  unfold commitsOf
  rw [List.filterMap_cons]
  cases result.toOption.bind Outcome.commit? <;> rfl

/-- Files, indexes and history move on together. -/
theorem append_agrees (h : Agrees config topic env.disk folder commits) (attempt : RawAttempt)
    {result : Except LogError RawOutcome}
    (hrun : topic.append attempt env = (result, after, later)) :
    Agrees config after later.disk folder
        (commits ++ (result.toOption.bind Outcome.commit?).toList) ∧
      Keeps env.disk later.disk (Place.directory · ≠ folder.directory) ∧
      after = { topic with partitions := after.partitions } := by
  have hlimit : topic.maxEntryBytes ≤ Frame.maxFieldLength := by
    rw [h.maxEntryBytes]
    exact h.limit
  cases append_cases env h.holds hlimit h.sound h.reliable attempt hrun with
  | @committed commit _ _ hlt _ _ hplace hcommit honly hkeeps _ hholds =>
    have hmax : after.maxEntryBytes = topic.maxEntryBytes := by rw [honly]
    refine ⟨⟨hkeeps.sound, hkeeps.reliable, h.limit, by rw [hmax, h.maxEntryBytes], ?_, ?_⟩,
      hkeeps, honly⟩
    · rw [h.maxEntryBytes] at hcommit
      exact h.history.append hlt hcommit hplace
    · refine hholds.congr fun number _ => ?_
      show _ = framesIn (commits ++ [commit]) number
      rw [Partition.framesIn_append, Partition.framesIn_singleton]
      split
      next => rfl
      next => rw [List.append_nil]
  | refused hnone hkeeps _ hholds =>
    rw [hnone, Option.toList_none, List.append_nil]
    exact ⟨⟨hkeeps.sound, hkeeps.reliable, h.limit, h.maxEntryBytes, h.history, hholds⟩, hkeeps,
      rfl⟩

/-- A row of attempts moves them on attempt by attempt. -/
theorem appendAll_agrees (attempts : List RawAttempt) :
    ∀ (topic : Topic) (env : Env) (commits : List RawCommit)
      {results : List (Except LogError RawOutcome)} {after : Topic} {later : Env},
      Agrees config topic env.disk folder commits →
      appendAll attempts topic env = (results, after, later) →
      Agrees config after later.disk folder (commits ++ commitsOf results) ∧
        Keeps env.disk later.disk (Place.directory · ≠ folder.directory) ∧
        after = { topic with partitions := after.partitions } := by
  induction attempts with
  | nil =>
    intro topic env commits results after later h hrun
    obtain ⟨rfl, rfl, rfl⟩ := hrun
    unfold commitsOf
    rw [List.filterMap_nil, List.append_nil]
    exact ⟨h, Keeps.refl h.sound h.reliable _, rfl⟩
  | cons attempt rest ih =>
    intro topic env commits results after later h hrun
    unfold appendAll at hrun
    rcases hone : topic.append attempt env with ⟨result, moved, reached⟩
    rcases hmore : appendAll rest moved reached with ⟨others, last, final⟩
    simp only [hone, hmore] at hrun
    obtain ⟨rfl, rfl, rfl⟩ := hrun
    obtain ⟨hmoved, hkeeps, honly⟩ := append_agrees h attempt hone
    obtain ⟨hlast, hrest, hsame⟩ := ih moved reached _ hmoved hmore
    rw [commitsOf_cons, ← List.append_assoc]
    refine ⟨hlast, hkeeps.trans hrest, ?_⟩
    rw [hsame, honly]

/-! ## Publishing -/

theorem publishBatches_only (batches : List (List RawCommit)) : ∀ (topic : Topic),
    (publishBatches batches topic).2
      = { topic with
          queue := (publishBatches batches topic).2.queue
          wakeups := (publishBatches batches topic).2.wakeups } := by
  induction batches with
  | nil => intro _; rfl
  | cons batch later ih =>
    intro topic
    unfold publishBatches
    split
    next queue _ => exact ih { topic with queue }.wake
    next => rfl
    next => rfl

theorem publish_only (topic : Topic) (commits : List RawCommit) :
    (topic.publish commits).2
      = { topic with
          queue := (topic.publish commits).2.queue
          wakeups := (topic.publish commits).2.wakeups } := publishBatches_only _ topic

theorem resumePublishing_only (topic : Topic) (backlog : Backlog) :
    (topic.resumePublishing backlog).2
      = { topic with
          queue := (topic.resumePublishing backlog).2.queue
          wakeups := (topic.resumePublishing backlog).2.wakeups } := by
  unfold resumePublishing
  split
  next queue _ => exact publishBatches_only _ { topic with queue }.wake
  next => rfl
  next => rfl

/-! ## Releasing the files -/

/-- Forcing to stable storage what is there anyway changes nothing. -/
theorem keeps_sync (hsound : disk.Sound) (hreliable : disk.Reliable) (handle : Disk.Handle) :
    Keeps disk (disk.sync handle).2 fun _ => True := by
  cases handle with
  | device => exact Keeps.refl hsound hreliable _
  | file number =>
    obtain ⟨synced, hsync, hedits⟩ := Disk.sync_of_reliable hreliable number
    rw [hsync]
    refine ⟨Nat.le_of_eq (congrArg Array.size hedits.directories.symm), ?_, ?_, ?_, ?_, ?_,
      hedits.reliable⟩
    · intro here _
      rw [Disk.directory_congr hedits.directories]
    · intro place entry he
      rw [hedits.entryAt?, he]
    · intro place _
      exact hedits.entryAt? place
    · intro place found _ _
      by_cases hfound : found = number
      · rw [hfound, hedits.content]
      · exact hedits.content_of_ne found hfound
    · exact hedits.sound hsound (hsound.length_le number)

theorem release_keeps (ps : List Partition) : ∀ (disk : Disk), disk.Sound → disk.Reliable →
    (release ps disk).1 = ps.map (fun p => { p with handle := none }) ∧
      Keeps disk (release ps disk).2 fun _ => True := by
  induction ps with
  | nil =>
    intro disk hsound hreliable
    exact ⟨rfl, Keeps.refl hsound hreliable _⟩
  | cons p later ih =>
    intro disk hsound hreliable
    unfold release
    cases hhandle : p.handle with
    | none =>
      obtain ⟨hlater, hkeeps⟩ := ih disk hsound hreliable
      exact ⟨by rw [List.map_cons, ← hlater], hkeeps⟩
    | some handle =>
      have hsync := keeps_sync hsound hreliable handle
      obtain ⟨hlater, hkeeps⟩ := ih (disk.sync handle).2 hsync.sound hsync.reliable
      exact ⟨by rw [List.map_cons, ← hlater], hsync.trans hkeeps⟩

/-- A partition holds its frames without an open file as well. -/
theorem holds_of_release {numbers : List UInt32} {frames : UInt32 → List Frame}
    (h : topic.Holds disk folder numbers frames)
    (hpartitions : after.partitions = topic.partitions.map fun p => { p with handle := none }) :
    after.Holds disk folder numbers frames where
  numbers_eq := by
    rw [hpartitions, List.map_map]
    exact h.numbers_eq
  path_eq p hp := by
    rw [hpartitions] at hp
    obtain ⟨q, hq, rfl⟩ := List.mem_map.1 hp
    exact h.path_eq q hq
  partition p hp := by
    rw [hpartitions] at hp
    obtain ⟨q, hq, rfl⟩ := List.mem_map.1 hp
    have hq := h.partition q hq
    exact ⟨hq.names, hq.short, hq.stores, hq.index, hq.tailOffset, hq.tailBytes, by simp⟩

/-- A topic that is shut down agrees with its files as before. -/
theorem shutDown_agrees (h : Agrees config topic env.disk folder commits)
    (hrun : topic.shutDown env = (after, later)) :
    Agrees config after later.disk folder commits ∧
      Keeps env.disk later.disk (Place.directory · ≠ folder.directory) := by
  obtain ⟨hpartitions, hkeeps⟩ := release_keeps topic.partitions env.disk h.sound h.reliable
  unfold shutDown at hrun
  obtain ⟨rfl, rfl⟩ := hrun
  have hkept := h.keeps hkeeps fun _ _ => trivial
  exact ⟨⟨hkeeps.sound, hkeeps.reliable, h.limit, h.maxEntryBytes, h.history,
    holds_of_release hkept.holds hpartitions⟩, hkeeps.mono fun _ _ => trivial⟩

/-! ## Units of work -/

/-- The commits of a unit of work that has appended and still publishes. -/
def commitsOfTask : Task → List RawCommit
  | .publish results _ => commitsOf results
  | _ => []

/-- The commits that a unit of work has made, when it has come that far. -/
def commitsOfServed : Actor.Served Task Reply → List RawCommit
  | .done (.results results) => commitsOf results
  | .waiting task => commitsOfTask task
  | _ => []

theorem commitsOfServed_published (results : List (Except LogError RawOutcome))
    (backlog : Option Backlog) :
    commitsOfServed (published results backlog) = commitsOf results := by
  cases backlog <;> rfl

/-- What is left of a unit that waits is to publish. -/
theorem perform_waiting {task rest : Task} {reached : Topic × Env}
    (h : perform task topic env = (.waiting rest, reached)) :
    ∃ results backlog, rest = .publish results backlog := by
  have hpublished : ∀ results backlog, published results backlog = .waiting rest →
      ∃ results backlog, rest = .publish results backlog := by
    intro results backlog hwaiting
    cases backlog with
    | none => simp [published] at hwaiting
    | some backlog => exact ⟨results, backlog, (Actor.Served.waiting.inj hwaiting).symm⟩
  cases task with
  | append attempts =>
    simp only [perform, Prod.mk.injEq] at h
    exact hpublished _ _ h.1
  | publish results backlog =>
    simp only [perform, Prod.mk.injEq] at h
    exact hpublished _ _ h.1
  | tails => simp [perform] at h
  | register => simp [perform] at h
  | shutDown => simp [perform] at h

/-- **Every unit of work keeps files, indexes and history together.** -/
theorem perform_agrees {task : Task} {served : Actor.Served Task Reply}
    (h : Agrees config topic env.disk folder (commits ++ commitsOfTask task))
    (hrun : perform task topic env = (served, after, later)) :
    Agrees config after later.disk folder (commits ++ commitsOfServed served) ∧
      Keeps env.disk later.disk (Place.directory · ≠ folder.directory) := by
  have hrefl : Keeps env.disk env.disk (Place.directory · ≠ folder.directory) :=
    Keeps.refl h.sound h.reliable _
  cases task with
  | append attempts =>
    rcases hall : appendAll attempts topic env with ⟨results, moved, reached⟩
    simp only [perform, hall, Prod.mk.injEq] at hrun
    obtain ⟨rfl, rfl, rfl⟩ := hrun
    simp only [commitsOfTask, List.append_nil] at h
    obtain ⟨hmoved, hkeeps, -⟩ := appendAll_agrees attempts topic env commits h hall
    rw [commitsOfServed_published]
    have honly := publish_only moved (commitsOf results)
    exact ⟨hmoved.of_partitions (by rw [honly]) (by rw [honly]), hkeeps⟩
  | publish results backlog =>
    simp only [perform, Prod.mk.injEq] at hrun
    obtain ⟨rfl, rfl, rfl⟩ := hrun
    rw [commitsOfServed_published]
    have honly := resumePublishing_only topic backlog
    exact ⟨h.of_partitions (by rw [honly]) (by rw [honly]), hrefl⟩
  | tails =>
    obtain ⟨rfl, rfl, rfl⟩ := hrun
    exact ⟨h, hrefl⟩
  | register =>
    obtain ⟨rfl, rfl, rfl⟩ := hrun
    exact ⟨h.of_partitions rfl rfl, hrefl⟩
  | shutDown =>
    rcases hdown : topic.shutDown env with ⟨moved, reached⟩
    simp only [perform, hdown, Prod.mk.injEq] at hrun
    obtain ⟨rfl, rfl, rfl⟩ := hrun
    exact shutDown_agrees h hdown

end CommitLog.Topic
