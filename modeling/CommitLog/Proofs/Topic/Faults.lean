import CommitLog.Proofs.Partition.Faults
import CommitLog.Proofs.Topic.ColdRead
import CommitLog.Proofs.Topic.Trial

/-!
# Commits that outlive failed writes

Attempts are made one after another, and with each of them anything may go wrong: a front part of
its frame is written, what was written is not forced to stable storage, the file is not cut back.
An attempt that is answered with an error leaves the index alone, and no attempt touches what stands
where frames have been recorded before. So a commit can be read back for ever if its frame stands
where it is recorded, and never otherwise. It does unless bytes of a failed write were left behind
the frames at that time, which takes a cut that failed (`commits_outlive_failed_writes`).
-/

namespace CommitLog.Topic

open CommitLog.Disk (Alters Fault)
open CommitLog.Frame (IsCommit)
open CommitLog.Partition (Filling Slot Tried encodeAll entryCount frameOf commitOf)

variable {config : Config} {topic last : Topic} {disk there after : Disk} {folder : Folder}
  {commits : List RawCommit} {fillings : UInt32 → Filling} {number : UInt32} {p : Partition}
  {trial : Trial} {allowed : Trial → Prop} {frames : UInt32 → List Frame}

/-! ## Attempts one after another -/

/-- The file of the attempt is cut back if its frame cannot be written. -/
def Trial.CutsBack (trial : Trial) : Prop :=
  ∀ p, trial.topic.partition trial.number = .ok p → trial.topic.refusal? trial.attempt = none →
    p.CutsBack trial.topic.durable trial.attempt trial.env

/-- What was left behind the frames of the partition that an attempt goes to. -/
def Trial.stray (trial : Trial) : Bytes :=
  match trial.topic.partition trial.number with
  | .ok p => p.stray trial.env.disk
  | .error _ => []

/-- Topic and disk are led on by attempts one after another. What goes wrong with an attempt is a
matter of its own, and so are the time and the identifiers. -/
inductive Leads (allowed : Trial → Prop) (topic : Topic) (disk : Disk) : Topic → Disk → Prop where
  | refl : Leads allowed topic disk topic disk
  | step {there : Disk} (trial : Trial) (before : Leads allowed topic disk trial.topic there)
      (disk_eq : trial.env.disk = { there with faults := trial.env.disk.faults })
      (allows : allowed trial) : Leads allowed topic disk trial.after trial.later.disk

/-! ## Topics whose writes go wrong -/

/-- The files that a topic is written to hold this, and the indexes tell of their frames. -/
structure Filled (config : Config) (topic : Topic) (disk : Disk) (fillings : UInt32 → Filling) :
    Prop where
  limit : topic.maxEntryBytes ≤ Frame.maxFieldLength
  numbers_eq : topic.partitions.map Partition.number = partitionNumbers config
  partition : ∀ p ∈ topic.partitions, p.handle ≠ none →
    p.Filled topic.maxEntryBytes disk (fillings p.number)
  apart : ∀ p ∈ topic.partitions, ∀ q ∈ topic.partitions, p.handle ≠ none → q.handle ≠ none →
    (fillings p.number).file = (fillings q.number).file → p.number = q.number

namespace Filled

/-- What is still to go wrong makes no difference to what files hold. -/
theorem of_faults (h : topic.Filled config disk fillings) (faults : List (Option Fault)) :
    topic.Filled config { disk with faults } fillings where
  limit := h.limit
  numbers_eq := h.numbers_eq
  partition p hp hopen := by
    have hfilled := h.partition p hp hopen
    have hsame : ({ disk with faults } : Disk).directories = disk.directories := rfl
    exact ⟨(Disk.resolve_congr hsame p.path).trans hfilled.resolve, hfilled.size, hfilled.content,
      hfilled.handle, hfilled.index, hfilled.tailOffset, hfilled.tailBytes, hfilled.room,
      hfilled.isCommit⟩
  apart := h.apart

/-- One partition has moved on, and the others have not. -/
theorem put (h : topic.Filled config disk fillings)
    (hp : topic.partitions[number.toNat]? = some p) (hopen : p.handle ≠ none) {moved : Partition}
    {filling : Filling} (hmoved : moved.number = p.number)
    (hfile : filling.file = (fillings number).file)
    (halters : Alters disk after (fillings number).file filling.content)
    (hfilled : moved.Filled topic.maxEntryBytes after filling) :
    (topic.putPartition number moved).Filled config after
      fun other => if other = number then filling else fillings other := by
  obtain ⟨hnumber, hlt⟩ := number_of_numbers h.numbers_eq hp
  have hmem := List.mem_of_getElem? hp
  have hfiles : ∀ other : UInt32, (if other = number then filling else fillings other).file
      = (fillings other).file := by
    intro other
    split
    next hother => rw [hother, hfile]
    next => rfl
  -- the partition that has moved on stands for the one that it was
  have hcases : ∀ q ∈ (topic.putPartition number moved).partitions, q.handle ≠ none →
      ∃ old ∈ topic.partitions, old.number = q.number ∧ old.handle ≠ none := by
    intro q hq hqopen
    rcases putPartition_cases_of_numbers h.numbers_eq hq with rfl | ⟨hold, -⟩
    · exact ⟨p, hmem, hmoved.symm, hopen⟩
    · exact ⟨q, hold, rfl, hqopen⟩
  refine ⟨h.limit, numbers_putPartition h.numbers_eq hlt (hmoved.trans hnumber), ?_, ?_⟩
  · intro q hq hqopen
    rcases putPartition_cases_of_numbers h.numbers_eq hq with rfl | ⟨hold, hother⟩
    · rw [hmoved, hnumber, if_pos rfl]
      exact hfilled
    · rw [if_neg hother]
      refine (h.partition q hold hqopen).of_ne halters fun hsame => hother ?_
      rw [← hnumber] at hsame ⊢
      exact h.apart q hold p hmem hqopen hopen hsame
  · intro q hq r hr hqopen hropen hsame
    rw [hfiles, hfiles] at hsame
    obtain ⟨old, hold, hoq, hoopen⟩ := hcases q hq hqopen
    obtain ⟨other, hother, hor, hoopen'⟩ := hcases r hr hropen
    rw [← hoq, ← hor] at hsame ⊢
    exact h.apart old hold other hother hoopen hoopen' hsame

end Filled

/-- The open partition of a number is written to the file at its place. -/
theorem exists_file_of_holds (h : topic.Holds disk folder (partitionNumbers config) frames)
    (number : UInt32) : ∃ file, ∀ p ∈ topic.partitions, p.number = number → p.handle ≠ none →
      p.handle = some (.file file) ∧
        disk.entryAt? (filePlace folder.directory number) = some (.file file) := by
  have hplace : ∀ p ∈ topic.partitions, p.number = number → p.handle ≠ none → ∃ file,
      p.handle = some (.file file) ∧
        disk.entryAt? (filePlace folder.directory number) = some (.file file) := by
    rintro p hp rfl hopen
    obtain ⟨handle, hhandle⟩ := Option.ne_none_iff_exists'.1 hopen
    obtain ⟨file, rfl, hfile⟩ := (h.partition p hp).handle handle hhandle
    exact ⟨file, hhandle, hfile⟩
  by_cases hfound : ∃ file, disk.entryAt? (filePlace folder.directory number) = some (.file file)
  · obtain ⟨file, hfound⟩ := hfound
    refine ⟨file, fun p hp hnumber hopen => ?_⟩
    obtain ⟨other, hhandle, hother⟩ := hplace p hp hnumber hopen
    rw [hfound] at hother
    obtain rfl := Disk.Entry.file.inj (Option.some.inj hother)
    exact ⟨hhandle, hfound⟩
  · refine ⟨0, fun p hp hnumber hopen => absurd ?_ hfound⟩
    obtain ⟨other, -, hother⟩ := hplace p hp hnumber hopen
    exact ⟨other, hother⟩

/-- A topic that agrees with its files has nothing left behind its frames. -/
theorem exists_filled_of_agrees (h : Agrees config topic disk folder commits) :
    ∃ fillings, topic.Filled config disk fillings ∧
      ∀ number, (fillings number).stray = [] := by
  obtain ⟨file, hfile⟩ := Classical.skolem.1 (exists_file_of_holds h.holds)
  refine ⟨fun number => ⟨file number, (framesIn commits number).map .intact, []⟩,
    ⟨?_, h.holds.numbers_eq, ?_, ?_⟩, fun _ => rfl⟩
  · rw [h.maxEntryBytes]
    exact h.limit
  · intro p hp hopen
    have hframes := h.history.isCommit_framesIn p.number
    rw [← h.maxEntryBytes] at hframes
    exact Partition.filled_of_holds (h.holds.partition p hp) h.sound
      (hfile p.number p hp rfl hopen).1 hframes
  · intro p hp q hq hpopen hqopen hsame
    have hpfound := (hfile p.number p hp rfl hpopen).2
    have hqfound := (hfile q.number q hq rfl hqopen).2
    rw [show file q.number = file p.number from hsame.symm] at hqfound
    exact filePlace_injective (h.sound.file_unique _ _ _ hpfound hqfound)

/-! ## One attempt -/

/-- What has been recorded stays where it is, and open partitions stay open. -/
structure Stays (topic last : Topic) (fillings later : UInt32 → Filling) : Prop where
  slots : ∀ number, (fillings number).slots <+: (later number).slots
  handles : last.partitions.map Partition.handle = topic.partitions.map Partition.handle

theorem stays_refl (topic : Topic) (fillings : UInt32 → Filling) :
    Stays topic topic fillings fillings := ⟨fun _ => List.prefix_rfl, rfl⟩

theorem Stays.trans {middle : Topic} {between later : UInt32 → Filling}
    (h : Stays topic middle fillings between) (h' : Stays middle last between later) :
    Stays topic last fillings later :=
  ⟨fun number => (h.slots number).trans (h'.slots number), h'.handles.trans h.handles⟩

theorem handles_putPartition (hp : topic.partitions[number.toNat]? = some p) {moved : Partition}
    (hhandle : moved.handle = p.handle) :
    (topic.putPartition number moved).partitions.map Partition.handle
      = topic.partitions.map Partition.handle := by
  have hsame := congrArg (List.map Partition.handle ∘ Topic.partitions) (putPartition_self hp)
  unfold putPartition at hsame ⊢
  simp only [Function.comp_apply, List.map_set] at hsame ⊢
  rw [hhandle, hsame]

/-- What an attempt comes to, whatever goes wrong with it. -/
structure Outlived (config : Config) (trial : Trial) (fillings later : UInt32 → Filling) :
    Prop where
  filled : trial.after.Filled config trial.later.disk later
  stays : Stays trial.topic trial.after fillings later
  stray : trial.CutsBack → ∀ number, (fillings number).stray = [] → (later number).stray = []
  refused : ∀ failure, trial.result = .error failure → trial.after = trial.topic
  /-- A commit is that of the attempt, at the tail of an open partition. -/
  committed : ∀ commit, trial.result = .ok (.committed commit) →
    commit = commitOf trial.attempt trial.env.ids.next.1 trial.env.now ∧
      later trial.number = (fillings trial.number).add commit.frame ∧
      ∃ p, trial.topic.partitions[trial.number.toNat]? = some p ∧ p.handle ≠ none ∧
        commit.expected = p.tail

/-- An attempt that is answered without a commit, and has changed nothing. -/
theorem outlived_of_unchanged (h : trial.topic.Filled config trial.env.disk fillings)
    (result : Except LogError RawOutcome)
    (hrun : trial.topic.append trial.attempt trial.env = (result, trial.topic, trial.env))
    (hnone : result.toOption.bind Outcome.commit? = none) :
    Outlived config trial fillings fillings := by
  have hafter : trial.after = trial.topic := by rw [Trial.after, hrun]
  have hlater : trial.later = trial.env := by rw [Trial.later, hrun]
  have hresult : trial.result = result := by rw [Trial.result, hrun]
  refine ⟨?_, ?_, fun _ _ hstray => hstray, fun _ _ => hafter, ?_⟩
  · rw [hafter, hlater]
    exact h
  · rw [hafter]
    exact stays_refl _ _
  · intro commit hcommit
    rw [← hresult, hcommit] at hnone
    cases hnone

theorem partition_of_getElem? (hp : topic.partitions[number.toNat]? = some p) :
    topic.partition number = .ok p := by
  unfold partition
  rw [hp]

/-- An attempt that goes to an open partition and is not refused for what it is. -/
theorem outlived_of_tried (h : trial.topic.Filled config trial.env.disk fillings)
    (hp : trial.topic.partitions[trial.number.toNat]? = some p) (hopen : p.handle ≠ none)
    (hrefusal : trial.topic.refusal? trial.attempt = none) {result : Except LogError RawOutcome}
    {moved : Partition} {later : Env}
    (hrun : p.append trial.topic.durable trial.attempt trial.env = (result, moved, later))
    {filling : Filling} (htried : Tried trial.topic.maxEntryBytes p trial.topic.durable
      trial.attempt trial.env (fillings trial.number) result moved later filling) :
    Outlived config trial fillings
      fun other => if other = trial.number then filling else fillings other := by
  have hwhole := append_of_refusal?_none trial.env hp hrefusal hrun
  have hafter : trial.after = trial.topic.putPartition trial.number moved := by
    rw [Trial.after, hwhole]
    rfl
  have hlater : trial.later = later := by rw [Trial.later, hwhole]
  have hresult : trial.result = result := by rw [Trial.result, hwhole]
  have hfilled := h.partition p (List.mem_of_getElem? hp) hopen
  rw [(number_of_numbers h.numbers_eq hp).1] at hfilled
  refine ⟨?_, ⟨?_, ?_⟩, ?_, ?_, ?_⟩
  · rw [hafter, hlater]
    exact h.put hp hopen htried.number htried.file htried.alters htried.filled
  · intro number
    split
    next hnumber =>
      rw [hnumber]
      exact htried.slots
    next => exact List.prefix_rfl
  · rw [hafter]
    refine handles_putPartition hp ?_
    rw [htried.filled.handle, htried.file, hfilled.handle]
  · intro hcuts number hnone
    split
    next hnumber =>
      rw [hnumber] at hnone
      exact htried.stray (hcuts p (partition_of_getElem? hp) hrefusal) hnone
    next => exact hnone
  · intro failure hfailure
    rw [hresult] at hfailure
    rw [hafter, htried.refused failure hfailure, putPartition_self hp]
  · intro commit hcommit
    rw [hresult] at hcommit
    obtain ⟨hcommitOf, hexpected, hadd⟩ := htried.committed commit hcommit
    exact ⟨hcommitOf, by rw [if_pos rfl, hadd], p, hp, hopen, hexpected⟩

/-- **Whatever goes wrong with an attempt, what has been recorded stays as it is.** -/
theorem outlived_of_filled (h : trial.topic.Filled config trial.env.disk fillings) :
    ∃ later, Outlived config trial fillings later := by
  cases hp : trial.topic.partitions[trial.number.toNat]? with
  | none =>
    refine ⟨fillings, outlived_of_unchanged h (.error (.invalidPartition trial.topic.name
      trial.number (UInt32.ofNat trial.topic.partitions.length))) ?_ rfl⟩
    unfold append partition
    simp only [Trial.number] at hp ⊢
    simp only [hp]
  | some p =>
    cases hrefusal : trial.topic.refusal? trial.attempt with
    | some failure =>
      refine ⟨fillings, outlived_of_unchanged h (.error failure) ?_ rfl⟩
      unfold append partition
      simp only [Trial.number] at hp
      simp only [hp, hrefusal]
    | none =>
      by_cases hopen : p.handle = none
      · obtain ⟨result, hrun, hnone⟩ :=
          Partition.append_of_closed hopen trial.topic.durable trial.attempt trial.env
        have hwhole := append_of_refusal?_none trial.env hp hrefusal hrun
        have hself : trial.topic.putPartition trial.attempt.expected.partition p = trial.topic :=
          putPartition_self hp
        rw [hself] at hwhole
        exact ⟨fillings, outlived_of_unchanged h result hwhole hnone⟩
      · rcases hrun : p.append trial.topic.durable trial.attempt trial.env with
          ⟨result, moved, later⟩
        have hfilled := h.partition p (List.mem_of_getElem? hp) hopen
        rw [(number_of_numbers h.numbers_eq hp).1] at hfilled
        obtain ⟨filling, htried⟩ := Partition.append_of_filled hfilled
          (isCommit_of_refusal? hrefusal h.limit _ _) hrun
        exact ⟨_, outlived_of_tried h hp hopen hrefusal hrun htried⟩

/-! ## A whole run -/

/-- **Whatever goes wrong with attempts, what has been recorded stays as it is.** -/
theorem Leads.outlived (h : Leads allowed topic disk last after)
    (hfilled : topic.Filled config disk fillings) :
    ∃ later, last.Filled config after later ∧ Stays topic last fillings later ∧
      ((∀ earlier, allowed earlier → earlier.CutsBack) →
        ∀ number, (fillings number).stray = [] → (later number).stray = []) := by
  induction h with
  | refl => exact ⟨fillings, hfilled, stays_refl _ _, fun _ _ hstray => hstray⟩
  | step trial _ hdisk hallows ih =>
    obtain ⟨between, hbetween, hstays, hstray⟩ := ih
    have hmet := hbetween.of_faults trial.env.disk.faults
    rw [← hdisk] at hmet
    obtain ⟨later, hlater⟩ := outlived_of_filled hmet
    refine ⟨later, hlater.filled, hstays.trans hlater.stays, fun hcuts number hnone => ?_⟩
    exact hlater.stray (hcuts trial hallows) number (hstray hcuts number hnone)

/-! ## Reading later -/

theorem read_of_partition {start : Revision} (hp : topic.partition start.partition = .ok p)
    (count : Nat) : topic.read disk start count
      = p.read disk topic.maxEntryBytes topic.maxMapBytes start count := by
  unfold read
  rw [hp]
  rfl

/-- What was left behind the frames when a commit was made. -/
theorem stray_of_committed {later : UInt32 → Filling} {commit : RawCommit}
    (h : trial.topic.Filled config trial.env.disk fillings)
    (houtlived : Outlived config trial fillings later)
    (hcommit : trial.result = .ok (.committed commit)) :
    trial.stray = (fillings trial.number).stray := by
  obtain ⟨-, -, met, hmet, hopen, -⟩ := houtlived.committed commit hcommit
  have hfilled := h.partition met (List.mem_of_getElem? hmet) hopen
  rw [Trial.stray, partition_of_getElem? hmet, ← (number_of_numbers h.numbers_eq hmet).1]
  exact hfilled.stray

/-- The partition that a commit has gone to is read at any later time, and holds its slot. -/
theorem exists_slot_of_outlived {later : UInt32 → Filling} {commit : RawCommit}
    (h : trial.topic.Filled config trial.env.disk fillings)
    (houtlived : Outlived config trial fillings later)
    (hcommit : trial.result = .ok (.committed commit))
    {last : Topic} {after : Disk} {latest : UInt32 → Filling}
    (hlast : last.Filled config after latest) (hstays : Stays trial.after last later latest) :
    ∃ p front more, last.partition commit.expected.partition = .ok p ∧
      p.Filled last.maxEntryBytes after (latest p.number) ∧
      (latest p.number).slots = front ++ Slot.behind trial.stray commit.frame :: more ∧
      commit.expected.offset.toNat = entryCount (front.map Slot.frame) ∧
      commit = commitAt p.number (entryCount (front.map Slot.frame)) commit.frame := by
  obtain ⟨hcommitOf, hadd, met, hmet, hopen, hexpected⟩ := houtlived.committed commit hcommit
  obtain ⟨hnumber, hlt⟩ := number_of_numbers h.numbers_eq hmet
  have hfilled := h.partition met (List.mem_of_getElem? hmet) hopen
  have hstray := stray_of_committed h houtlived hcommit
  have htail : met.tail
      = ⟨trial.number, UInt64.ofNat (entryCount (fillings trial.number).frames)⟩ := by
    rw [Partition.tail, hfilled.tailOffset, hnumber]
  obtain ⟨p, hp, hsame⟩ := exists_of_numbers hlast.numbers_eq hlt
  have hstill : p.handle = met.handle := by
    have hhandles := congrArg (fun handles => handles[trial.number.toNat]?)
      (hstays.handles.trans houtlived.stays.handles)
    simpa [hp, hmet] using hhandles
  obtain ⟨more, hmore⟩ := hstays.slots trial.number
  rw [hadd] at hmore
  refine ⟨p, (fillings trial.number).slots, more, ?_, ?_, ?_, ?_, ?_⟩
  · rw [hexpected, htail]
    exact partition_of_getElem? hp
  · exact hlast.partition p (List.mem_of_getElem? hp) (by rw [hstill]; exact hopen)
  · rw [hsame, ← hmore, hstray, Filling.add, List.append_assoc]
    rfl
  · rw [hexpected, hfilled.toNat_tail, hnumber]
    rfl
  · rw [hcommitOf] at hexpected ⊢
    have hattempt : trial.attempt.expected = met.tail := hexpected
    simp only [commitOf, commitAt, Commit.frame, hattempt, htail, hsame]
    rfl

/-- **Commits outlive failed writes if their frames stand where they are recorded.** An attempt
that is answered with an error changes nothing about the topic. One that is answered with a commit
has its own key and entries in it, and at any later time that very commit is read back exactly if
the bytes that were left behind the frames, with its frame behind them, begin with its frame. They
do if nothing was left, as is the case if all cuts have succeeded so far. -/
theorem commits_outlive_failed_writes (h : Agrees config topic disk folder commits)
    (hbefore : Leads allowed topic disk trial.topic there)
    (hdisk : trial.env.disk = { there with faults := trial.env.disk.faults }) :
    (∀ failure, trial.result = .error failure → trial.after = trial.topic) ∧
    ∀ commit, trial.result = .ok (.committed commit) →
      commit = commitOf trial.attempt trial.env.ids.next.1 trial.env.now ∧
      ((∀ earlier, allowed earlier → earlier.CutsBack) → trial.stray = []) ∧
      ∀ last after, Leads (fun _ => True) trial.after trial.later.disk last after →
        (last.read after commit.expected 1 = .ok [commit] ↔
          commit.frame.encode <+: trial.stray ++ commit.frame.encode) ∧
        (commit.frame.encode <+: trial.stray ++ commit.frame.encode →
          ∀ count found, last.read after commit.expected (count + 1) = .ok found →
            found.head? = some commit) := by
  obtain ⟨fillings, hfilled, hnone⟩ := exists_filled_of_agrees h
  obtain ⟨between, hbetween, -, hstray⟩ := hbefore.outlived hfilled
  have hmet := hbetween.of_faults trial.env.disk.faults
  rw [← hdisk] at hmet
  obtain ⟨later, hlater⟩ := outlived_of_filled hmet
  refine ⟨hlater.refused, fun commit hcommit => ?_⟩
  refine ⟨(hlater.committed commit hcommit).1, fun hcuts => ?_, fun last after hafter => ?_⟩
  · rw [stray_of_committed hmet hlater hcommit]
    exact hstray hcuts _ (hnone _)
  · obtain ⟨latest, hlatest, hstays, -⟩ := hafter.outlived hlater.filled
    obtain ⟨p, front, more, hp, hpfilled, hslots, hposition, hcommitAt⟩ :=
      exists_slot_of_outlived hmet hlater hcommit hlatest hstays
    have hone := hpfilled.read_one_iff hslots hposition last.maxMapBytes
    rw [Slot.frame_behind, ← hcommitAt, Slot.isIntact_behind_iff] at hone
    refine ⟨by rw [read_of_partition hp, hone], fun hprefix count found hfound => ?_⟩
    rw [read_of_partition hp] at hfound
    have hintact := Slot.isIntact_behind_iff.2 hprefix
    have hhead := hpfilled.head?_of_read hslots hposition hintact hfound
    rwa [Slot.frame_behind, ← hcommitAt] at hhead

theorem Trial.result_of_commit? {commit : RawCommit} (h : trial.commit? = some commit) :
    trial.result = .ok (.committed commit) := by
  unfold Trial.commit? at h
  cases hresult : trial.result with
  | error failure =>
    rw [hresult] at h
    cases h
  | ok outcome =>
    rw [hresult] at h
    cases outcome with
    | committed found => rw [Option.some.inj h]
    | conflict expected actual => cases h

theorem eq_ok_of_getD {answer : Except LogError (List RawCommit)} {found : List RawCommit}
    (h : answer.toOption.getD [] = found) (hne : found ≠ []) : answer = .ok found := by
  cases answer with
  | error failure => exact absurd h.symm hne
  | ok read => exact congrArg Except.ok h

/-- The attempt that is made next. -/
def Trial.next (trial : Trial) (attempt : RawAttempt) : Trial :=
  ⟨attempt, trial.after, trial.later⟩

/-- A write fails when some of its frame has landed, and the file is cut back. The next attempt
becomes a commit and is read back. -/
theorem commits_outlive_failed_writes_of_cut :
    ∃ topic disk, recover {} ⟨["", ""]⟩ "t" {} = (.ok topic, disk) ∧
      let failed : Trial := ⟨{ key := [107], entries := [[118]], expected := .origin 0 }, topic,
        { disk := { disk with faults := [some ⟨.noSpace, 5⟩] } }⟩
      let acknowledged := failed.next { key := [107], entries := [[119]], expected := .origin 0 }
      failed.commit? = none ∧ ∃ commit, acknowledged.result = .ok (.committed commit) ∧
        acknowledged.after.read acknowledged.later.disk commit.expected 1 = .ok [commit] := by
  have hcomputed : (recover {} ⟨["", ""]⟩ "t" {}).1.toOption.map (fun topic =>
      let failed : Trial := ⟨{ key := [107], entries := [[118]], expected := .origin 0 }, topic,
        { disk := { (recover {} ⟨["", ""]⟩ "t" {}).2 with faults := [some ⟨.noSpace, 5⟩] } }⟩
      let acknowledged := failed.next { key := [107], entries := [[119]], expected := .origin 0 }
      ([failed.commit?.isSome, acknowledged.commit?.isSome], acknowledged.stray))
      = some ([false, true], []) := by decide +kernel
  have hfresh : Fresh ⟨["", ""]⟩ ⟨0, "t"⟩ {} :=
    ⟨by decide, rfl, rfl, rfl, Disk.entryAt?_new _, Disk.sound_new, by simp [Disk.Reliable]⟩
  rcases hopen : recover {} ⟨["", ""]⟩ "t" {} with ⟨result, disk⟩
  rw [hopen] at hcomputed
  cases result with
  | error failure => simp [Except.toOption] at hcomputed
  | ok topic =>
    obtain ⟨hanswers, hstray⟩ := Prod.mk.inj (Option.some.inj hcomputed)
    obtain ⟨hfailed, hcommit⟩ := List.cons.inj hanswers
    obtain ⟨commit, hcommit⟩ := Option.isSome_iff_exists.1 (List.cons.inj hcommit).1
    have hresult := Trial.result_of_commit? hcommit
    obtain ⟨folder, hagrees⟩ := ((Reachable.fresh hfresh).step
      (.opened rfl (by decide) rfl rfl hopen)).consistent.exists_agrees rfl
    let failed : Trial := ⟨{ key := [107], entries := [[118]], expected := .origin 0 }, topic,
      { disk := { disk with faults := [some ⟨.noSpace, 5⟩] } }⟩
    let acknowledged := failed.next { key := [107], entries := [[119]], expected := .origin 0 }
    have hbefore : Leads (fun _ => True) topic disk acknowledged.topic failed.later.disk :=
      .step failed .refl rfl trivial
    have hdisk : acknowledged.env.disk
        = { failed.later.disk with faults := acknowledged.env.disk.faults } := rfl
    obtain ⟨-, hcommits⟩ := commits_outlive_failed_writes hagrees hbefore hdisk
    obtain ⟨-, -, hread⟩ := hcommits commit hresult
    refine ⟨topic, disk, rfl, Option.isNone_iff_eq_none.1 ?_, commit, hresult, ?_⟩
    · rw [← Option.not_isSome, Bool.not_eq_true']
      exact hfailed
    · refine (hread _ _ .refl).1.2 ?_
      rw [hstray]
      exact List.prefix_rfl

/-- The frame of an attempt lands but is not forced to stable storage, and the file is not cut back.
The next attempt becomes a commit, and what is read in its place is the attempt before it, which was
answered with an error. -/
theorem other_commit_of_failed_cut :
    let kept : RawCommit := {
      id := ⟨0x4000, 0x8000000000000001⟩, timestamp := 0, key := [107], entries := [[119]],
      actual := ⟨0, 1⟩, expected := .origin 0 }
    let lost : RawCommit := { kept with id := ⟨0x4000, 0x8000000000000000⟩, entries := [[118]] }
    ∃ topic disk, recover {} ⟨["", ""]⟩ "t" {} = (.ok topic, disk) ∧
      let failed : Trial := ⟨{ key := [107], entries := [[118]], expected := .origin 0 }, topic,
        { disk := { disk with faults := [none, some ⟨.noSpace, 0⟩, some ⟨.noSpace, 0⟩] } }⟩
      let acknowledged := failed.next { key := [107], entries := [[119]], expected := .origin 0 }
      failed.commit? = none ∧ acknowledged.commit? = some kept ∧
        acknowledged.after.read acknowledged.later.disk kept.expected 1 = .ok [lost] := by
  intro kept lost
  have hcomputed : (recover {} ⟨["", ""]⟩ "t" {}).1.toOption.map (fun topic =>
      let failed : Trial := ⟨{ key := [107], entries := [[118]], expected := .origin 0 }, topic,
        { disk := { (recover {} ⟨["", ""]⟩ "t" {}).2 with
            faults := [none, some ⟨.noSpace, 0⟩, some ⟨.noSpace, 0⟩] } }⟩
      let acknowledged := failed.next { key := [107], entries := [[119]], expected := .origin 0 }
      [failed.commit?.toList, acknowledged.commit?.toList,
        (acknowledged.after.read acknowledged.later.disk kept.expected 1).toOption.getD []])
      = some [[], [kept], [lost]] := by decide +kernel
  rcases hopen : recover {} ⟨["", ""]⟩ "t" {} with ⟨result, disk⟩
  rw [hopen] at hcomputed
  cases result with
  | error failure => simp [Except.toOption] at hcomputed
  | ok topic =>
    obtain ⟨hfailed, hrest⟩ := List.cons.inj (Option.some.inj hcomputed)
    obtain ⟨hkept, hrest⟩ := List.cons.inj hrest
    refine ⟨topic, disk, rfl, Option.toList_eq_nil_iff.1 hfailed,
      Option.toList_eq_singleton_iff.1 hkept, ?_⟩
    exact eq_ok_of_getD (List.cons.inj hrest).1 (by simp)

end CommitLog.Topic
