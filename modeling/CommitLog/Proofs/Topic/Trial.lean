import CommitLog.Proofs.Topic.Agreement
import CommitLog.Proofs.Topic.Bounds

/-!
# What becomes of an attempt

An attempt meets a topic at some moment. Whether it becomes a commit is settled by the attempt, the
settings and the tail of that moment alone: `IsAdmissible` says when, and `judged_of_ready` says what
follows from it on any topic that has been recovered. An attempt that does not become a commit
leaves topic and disk as they were.

Which of the attempts of a unit become commits decides everything that comes of the unit: the
others might as well not have been made (`perform_won`).
-/

namespace CommitLog.Disk

variable {disk after : Disk} {handle : Handle} {bytes : Bytes}

/-! ## Writing that succeeds -/

theorem contents_nextFault (disk : Disk) : disk.nextFault.2.contents = disk.contents := by
  unfold nextFault
  split <;> rfl

theorem contents_sync (disk : Disk) (handle : Handle) :
    (disk.sync handle).2.contents = disk.contents := by
  have hnext := contents_nextFault disk
  unfold sync
  split
  next => rfl
  next =>
    split
    next heq => rwa [heq] at hnext
    next heq => rwa [heq] at hnext

theorem content_congr {number : Nat} (h : after.contents = disk.contents) :
    after.content number = disk.content number := by
  rw [content, h, content]

theorem content_appendContent {number : Nat} (h : number < disk.contents.size) (bytes : Bytes) :
    (disk.appendContent number bytes).content number = disk.content number ++ bytes :=
  (content_modifyContent _ h).trans (by simp)

theorem size_appendContent (number : Nat) (bytes : Bytes) :
    (disk.appendContent number bytes).contents.size = disk.contents.size := Array.size_modify

/-- Bytes that have been appended stand behind what the file held. -/
theorem contents_of_append (h : disk.append handle bytes = (.ok (), after)) :
    ∃ file, handle = .file file ∧ disk.length file + bytes.length ≤ maxFileLength ∧
      after.contents = (disk.appendContent file bytes).contents := by
  have hnext := contents_nextFault disk
  unfold append at h
  cases handle with
  | device => simp at h
  | file file =>
    refine ⟨file, rfl, ?_⟩
    split at h
    next heq => simp at heq
    next number heq =>
      obtain rfl := Handle.file.inj heq
      split at h
      next => simp at h
      next next heq =>
        rw [heq] at hnext
        have hsame : next.contents = disk.contents := hnext
        split at h
        next => simp at h
        next hroom =>
          obtain ⟨-, rfl⟩ := Prod.mk.inj h
          rw [length, hsame] at hroom
          exact ⟨Nat.not_lt.1 hroom, by simp only [appendContent, modifyContent, hsame]⟩

end CommitLog.Disk

namespace CommitLog.Partition

open CommitLog.Frame (wordSize)

variable {p : Partition} {disk after : Disk} {handle : Disk.Handle} {durable : Bool} {bytes : Bytes}

theorem contents_of_write (h : write disk handle durable bytes = (.ok (), after)) :
    ∃ file, handle = .file file ∧ disk.length file + bytes.length ≤ Disk.maxFileLength ∧
      after.contents = (disk.appendContent file bytes).contents := by
  unfold write at h
  split at h
  next written heq =>
    obtain ⟨file, rfl, hroom, hcontents⟩ := Disk.contents_of_append heq
    refine ⟨file, rfl, hroom, ?_⟩
    rw [← hcontents]
    have hsync := Disk.contents_sync written (.file file)
    split at h
    next => rwa [h] at hsync
    next => rw [(Prod.mk.inj h).2]
  next => simp at h

/-- A partition stays bounded while other bytes are written, to its own file or to another. -/
theorem Bounded.write (h : p.Bounded disk)
    (hwrite : Partition.write disk handle durable bytes = (.ok (), after)) : p.Bounded after := by
  obtain ⟨written, -, -, hcontents⟩ := contents_of_write hwrite
  refine ⟨h.tailOffset_le, h.tailBytes_le, fun file hopen => ?_⟩
  obtain ⟨hfile, hlength⟩ := h.file file hopen
  refine ⟨by rw [hcontents, Disk.size_appendContent]; exact hfile, ?_⟩
  rw [Disk.content_congr hcontents]
  by_cases hother : file = written
  · subst hother
    rw [Disk.content_appendContent hfile, List.length_append]
    omega
  · rw [Disk.appendContent, Disk.content_modifyContent_of_ne _ hother]
    exact hlength

/-- A frame takes a byte for every entry at least. -/
theorem size_le_length (frame : Frame) : frame.entries.length ≤ frame.encode.length := by
  simpa using entryCount_le_length [frame]

/-- A partition that records what has been written to its file is bounded as before. -/
theorem Bounded.record (h : p.Bounded disk) {frame : Frame} (hhandle : p.handle = some handle)
    (hwrite : Partition.write disk handle durable frame.encode = (.ok (), after)) :
    (p.record ⟨p.tailOffset, p.tailBytes, frame.encode.length, frame.entries.length⟩).Bounded
      after := by
  obtain ⟨file, rfl, hroom, hcontents⟩ := contents_of_write hwrite
  obtain ⟨hfile, hlength⟩ := h.file file hhandle
  have hsize := size_le_length frame
  have hoffset := h.tailOffset_le
  rw [Disk.length_content] at hlength
  refine ⟨?_, ?_, fun other hopen => ?_⟩
  · simp only [Partition.record, Location.stop, Location.endPos]
    omega
  · simp only [Partition.record, Location.endPos]
    omega
  · obtain rfl := Disk.Handle.file.inj (Option.some.inj (hhandle.symm.trans hopen))
    refine ⟨by rw [hcontents, Disk.size_appendContent]; exact hfile, ?_⟩
    rw [Disk.content_congr hcontents, Disk.content_appendContent hfile, List.length_append]
    simp only [Partition.record, Location.endPos]
    rw [Disk.length_content]
    omega

end CommitLog.Partition

namespace CommitLog.Topic

open CommitLog.Partition (frameOf commitOf)

/-! ## Attempts -/

/-- An attempt that could become a commit of a log with these settings, if the tail were right. -/
structure IsWellFormed (config : Config) (attempt : RawAttempt) : Prop where
  lt : attempt.expected.partition < config.partitions
  entries_ne : attempt.entries ≠ []
  fits : ∀ field ∈ attempt.key :: attempt.entries, field.length ≤ config.maxEntryBytes

/-- An attempt that has been served, with the topic and the surroundings that it met. -/
structure Trial where
  attempt : RawAttempt
  topic : Topic
  env : Env

namespace Trial

/-- The partition that the attempt names. -/
def number (trial : Trial) : UInt32 := trial.attempt.expected.partition

/-- The answer. -/
def result (trial : Trial) : Except LogError RawOutcome :=
  (trial.topic.append trial.attempt trial.env).1

/-- The topic afterwards. -/
def after (trial : Trial) : Topic := (trial.topic.append trial.attempt trial.env).2.1

/-- The surroundings afterwards. -/
def later (trial : Trial) : Env := (trial.topic.append trial.attempt trial.env).2.2

/-- The commit that the attempt has become, if it has. -/
def commit? (trial : Trial) : Option RawCommit := trial.result.toOption.bind Outcome.commit?

/-- The tail that the attempt met. -/
def tail (trial : Trial) : Revision := trial.topic.tails.get trial.number

/-- What an attempt needs to become a commit. -/
structure IsAdmissible (config : Config) (trial : Trial) : Prop where
  isWellFormed : IsWellFormed config trial.attempt
  append : config.openFlags.contains .append = true
  expected : trial.attempt.expected = trial.tail

/-- The disk does not fail: the frame of an attempt that is to become a commit can be written. -/
def Succeeds (config : Config) (trial : Trial) : Prop :=
  trial.IsAdmissible config → ∀ p handle, trial.topic.partition trial.number = .ok p →
    p.handle = some handle →
    (Partition.write trial.env.disk handle trial.topic.durable
      (frameOf trial.attempt trial.env.ids.next.1 trial.env.now).encode).1 = .ok ()

end Trial

/-- What becomes of an attempt on a topic with these settings. -/
inductive Judged (config : Config) (trial : Trial) : Prop where
  /-- It has become the commit at the tail that it met, and the tail has moved on past it. -/
  | committed {commit : RawCommit} (admissible : trial.IsAdmissible config)
      (result : trial.result = .ok (.committed commit))
      (expected : commit.expected = trial.attempt.expected)
      (toNat_actual : commit.actual.offset.toNat
        = trial.attempt.expected.offset.toNat + trial.attempt.size)
      (tail : trial.after.tails.get trial.number = commit.actual)
      (others : ∀ other, other < config.partitions → other ≠ trial.number →
        trial.after.tails.get other = trial.topic.tails.get other)
      (ready : Ready config trial.after trial.later.disk)
  /-- It has not, and nothing has changed. -/
  | refused (inadmissible : ¬trial.IsAdmissible config) (commit : trial.commit? = none)
      (after : trial.after = trial.topic) (later : trial.later = trial.env)
      (conflict : IsWellFormed config trial.attempt → trial.attempt.expected ≠ trial.tail →
        trial.result = .ok (.conflict trial.attempt.expected trial.tail))

variable {config : Config} {topic moved : Topic} {disk : Disk} {number : UInt32} {p : Partition}

theorem Trial.commit?_of_result {trial : Trial} {commit : RawCommit}
    (h : trial.result = .ok (.committed commit)) : trial.commit? = some commit := by
  rw [Trial.commit?, h]
  rfl

/-- An attempt that has become no commit has changed nothing. -/
theorem Judged.unchanged {trial : Trial} (h : Judged config trial) (hnone : trial.commit? = none) :
    trial.after = trial.topic ∧ trial.later = trial.env := by
  cases h with
  | committed _ hresult =>
    rw [Trial.commit?_of_result hresult] at hnone
    simp at hnone
  | refused _ _ hafter hlater => exact ⟨hafter, hlater⟩

theorem foldl_max_le {lengths : List Nat} {start limit : Nat} (hstart : start ≤ limit)
    (h : ∀ n ∈ lengths, n ≤ limit) : lengths.foldl max start ≤ limit := by
  induction lengths generalizing start with
  | nil => exact hstart
  | cons first later ih =>
    refine ih ?_ fun n hn => h n (List.mem_cons_of_mem _ hn)
    exact Nat.max_le.2 ⟨hstart, h first List.mem_cons_self⟩

theorem largest_le_iff {attempt : RawAttempt} {limit : Nat} :
    attempt.largest ≤ limit ↔ ∀ field ∈ attempt.key :: attempt.entries, field.length ≤ limit := by
  constructor
  · intro h field hfield
    exact Nat.le_trans (length_le_largest attempt field hfield) h
  · intro h
    refine foldl_max_le (h _ List.mem_cons_self) fun n hn => ?_
    obtain ⟨entry, hentry, rfl⟩ := List.mem_map.1 hn
    exact h entry (List.mem_cons_of_mem _ hentry)

theorem Ready.of_partitions (h : Ready config topic disk)
    (hpartitions : moved.partitions = topic.partitions)
    (hmax : moved.maxEntryBytes = topic.maxEntryBytes) : Ready config moved disk where
  maxEntryBytes := by rw [hmax, h.maxEntryBytes]
  numbers_eq := by rw [hpartitions, h.numbers_eq]
  handle := by rw [hpartitions]; exact h.handle
  bounded := by rw [hpartitions]; exact h.bounded

theorem tails_congr (h : moved.partitions = topic.partitions) : moved.tails = topic.tails := by
  rw [tails, h, tails]

/-- The tails of a topic whose partition has moved on. -/
theorem get_tails_putPartition {moved : Partition}
    (h : topic.partitions.map Partition.number = partitionNumbers config)
    (hnumber : number < config.partitions) (hmoved : moved.number = number) :
    (topic.putPartition number moved).tails.get number = moved.tail ∧
      ∀ other, other < config.partitions → other ≠ number →
        (topic.putPartition number moved).tails.get other = topic.tails.get other := by
  have hput := numbers_putPartition h hnumber hmoved
  have hget : ∀ other : UInt32, (topic.putPartition number moved).partitions[other.toNat]?
      = if other = number then some moved else topic.partitions[other.toNat]? := by
    intro other
    obtain ⟨p, hp, -⟩ := exists_of_numbers h hnumber
    obtain ⟨hlt, -⟩ := List.getElem?_eq_some_iff.1 hp
    unfold putPartition
    by_cases hother : other = number
    · subst hother
      rw [if_pos rfl, List.getElem?_set_self hlt]
    · rw [if_neg hother, List.getElem?_set_ne]
      intro hsame
      exact hother (UInt32.toNat.inj hsame.symm)
  constructor
  · have hself := hget number
    rw [if_pos rfl] at hself
    have htails := get_tails_of_numbers hput (List.mem_of_getElem? hself)
    rwa [hmoved] at htails
  · intro other hlt hother
    obtain ⟨q, hq, rfl⟩ := exists_of_numbers h hlt
    have hsame := hget q.number
    rw [if_neg hother, hq] at hsame
    rw [get_tails_of_numbers hput (List.mem_of_getElem? hsame),
      get_tails_of_numbers h (List.mem_of_getElem? hq)]

/-- An attempt that is answered without a commit, and has changed nothing. -/
theorem judged_of_unchanged {trial : Trial} (result : Except LogError RawOutcome)
    (hrun : trial.topic.append trial.attempt trial.env = (result, trial.topic, trial.env))
    (hnone : result.toOption.bind Outcome.commit? = none)
    (hnot : ¬trial.IsAdmissible config)
    (hconflict : IsWellFormed config trial.attempt → trial.attempt.expected ≠ trial.tail →
      result = .ok (.conflict trial.attempt.expected trial.tail)) : Judged config trial := by
  refine .refused hnot ?_ ?_ ?_ ?_
  · rw [Trial.commit?, Trial.result, hrun]
    exact hnone
  · rw [Trial.after, hrun]
  · rw [Trial.later, hrun]
  · rw [Trial.result, hrun]
    exact hconflict

/-- An attempt that is not refused for what it is goes to its partition. -/
theorem append_of_refusal?_none {attempt : RawAttempt} (env : Env)
    (hp : topic.partitions[attempt.expected.partition.toNat]? = some p)
    (hrefusal : topic.refusal? attempt = none) {result : Except LogError RawOutcome}
    {moved : Partition} {later : Env}
    (hrun : p.append topic.durable attempt env = (result, moved, later)) :
    topic.append attempt env
      = (result, topic.putPartition attempt.expected.partition moved, later) := by
  unfold append partition
  simp only [hp, hrefusal, hrun]

section Judge

variable {trial : Trial} (h : Ready config trial.topic trial.env.disk)

include h

/-- An attempt that is not well-formed is refused before its tail is looked at. -/
theorem judged_of_not_isWellFormed (hnot : ¬IsWellFormed config trial.attempt) :
    Judged config trial := by
  have hadmissible : ¬trial.IsAdmissible config := fun hall => hnot hall.isWellFormed
  cases hp : trial.topic.partitions[trial.attempt.expected.partition.toNat]? with
  | none =>
    refine judged_of_unchanged (.error (.invalidPartition trial.topic.name
      trial.attempt.expected.partition (UInt32.ofNat trial.topic.partitions.length))) ?_ rfl
      hadmissible fun hformed => absurd hformed hnot
    unfold append partition
    simp only [hp]
  | some p =>
    cases hrefusal : trial.topic.refusal? trial.attempt with
    | some e =>
      refine judged_of_unchanged (.error e) ?_ rfl hadmissible
        fun hformed => absurd hformed hnot
      unfold append partition
      simp only [hp, hrefusal]
    | none =>
      have hsizes := (refusal?_eq_none trial.attempt).1 hrefusal
      rw [h.maxEntryBytes, largest_le_iff] at hsizes
      exact absurd ⟨(number_of_numbers h.numbers_eq hp).2, hsizes.1, hsizes.2⟩ hnot

/-- The partition of a well-formed attempt, which the attempt goes to. -/
theorem exists_partition_of_isWellFormed (hformed : IsWellFormed config trial.attempt) :
    ∃ p, p ∈ trial.topic.partitions ∧
      trial.topic.partitions[trial.attempt.expected.partition.toNat]? = some p ∧
      p.number = trial.number ∧ trial.tail = p.tail ∧
      trial.topic.refusal? trial.attempt = none := by
  obtain ⟨p, hp, hnumber⟩ := exists_of_numbers h.numbers_eq hformed.lt
  have hmem := List.mem_of_getElem? hp
  refine ⟨p, hmem, hp, hnumber, ?_, ?_⟩
  · rw [Trial.tail, Trial.number, ← hnumber]
    exact get_tails_of_numbers h.numbers_eq hmem
  · rw [refusal?_eq_none, h.maxEntryBytes, largest_le_iff]
    exact ⟨hformed.entries_ne, hformed.fits⟩

/-- A well-formed attempt that misses the tail is told the tail. -/
theorem judged_of_conflict (hformed : IsWellFormed config trial.attempt)
    (hexpected : trial.attempt.expected ≠ trial.tail) : Judged config trial := by
  obtain ⟨p, -, hp, -, htail, hrefusal⟩ := exists_partition_of_isWellFormed h hformed
  have hmissed : p.append trial.topic.durable trial.attempt trial.env
      = (.ok (.conflict trial.attempt.expected p.tail), p, trial.env) := by
    unfold Partition.append
    rw [if_pos (by rwa [← htail])]
  refine judged_of_unchanged (.ok (.conflict trial.attempt.expected p.tail)) ?_ rfl
    (fun hall => hexpected hall.expected) fun _ _ => by rw [htail]
  rw [append_of_refusal?_none trial.env hp hrefusal hmissed, putPartition_self hp]

/-- Without the right to append, nothing is written. -/
theorem judged_of_no_handle (hformed : IsWellFormed config trial.attempt)
    (hexpected : trial.attempt.expected = trial.tail)
    (happend : config.openFlags.contains .append = false) : Judged config trial := by
  obtain ⟨p, hmem, hp, -, htail, hrefusal⟩ := exists_partition_of_isWellFormed h hformed
  have hhandle : p.handle = none := by
    have hopen := h.handle p hmem
    rwa [happend, Option.isSome_eq_false_iff, Option.isNone_iff_eq_none] at hopen
  have hmissed : p.append trial.topic.durable trial.attempt trial.env
      = (.error (.invalidOperation .withoutAppend), p, trial.env) := by
    unfold Partition.append
    rw [if_neg (by rw [← htail]; exact fun hne => hne hexpected), hhandle]
  refine judged_of_unchanged (.error (.invalidOperation .withoutAppend)) ?_ rfl ?_
    fun _ hne => absurd hexpected hne
  · rw [append_of_refusal?_none trial.env hp hrefusal hmissed, putPartition_self hp]
  · intro hall
    rw [hall.append] at happend
    simp at happend

/-- An attempt that has all it needs becomes the commit at the tail. -/
theorem judged_of_isAdmissible (hall : trial.IsAdmissible config)
    (hdisk : trial.Succeeds config) : Judged config trial := by
  obtain ⟨p, hmem, hp, hnumber, htail, hrefusal⟩ :=
    exists_partition_of_isWellFormed h hall.isWellFormed
  have hbounded := h.bounded p hmem
  obtain ⟨handle, hhandle⟩ := Option.isSome_iff_exists.1 ((h.handle p hmem).trans hall.append)
  rcases hwrite : Partition.write trial.env.disk handle trial.topic.durable
    (frameOf trial.attempt trial.env.ids.next.1 trial.env.now).encode with ⟨done, written⟩
  have hdone := hdisk hall p handle (by rw [Trial.number, partition, hp]) hhandle
  rw [hwrite] at hdone
  obtain rfl : done = .ok () := hdone
  let moved := p.record ⟨p.tailOffset, p.tailBytes,
    (frameOf trial.attempt trial.env.ids.next.1 trial.env.now).encode.length, trial.attempt.size⟩
  have happended : p.append trial.topic.durable trial.attempt trial.env
      = (.ok (.committed (commitOf trial.attempt trial.env.ids.next.1 trial.env.now)), moved,
          { trial.env with disk := written, ids := trial.env.ids.next.2 }) := by
    unfold Partition.append
    rw [if_neg (by rw [← htail]; exact fun hne => hne hall.expected), hhandle]
    simp only [hwrite]
    rfl
  have hmovedNumber : moved.number = trial.number := hnumber
  have hrun := append_of_refusal?_none trial.env hp hrefusal happended
  have hmoved : moved.Bounded written := hbounded.record hhandle hwrite
  have hoffset : trial.attempt.expected.offset.toNat = p.tailOffset := by
    rw [hall.expected, htail, hbounded.toNat_tail]
  have hactual : (commitOf trial.attempt trial.env.ids.next.1 trial.env.now).actual
      = moved.tail := by
    have hbytes := hmoved.tailBytes_le
    have hentries := hmoved.tailOffset_le
    have hmax : Disk.maxFileLength = 2 ^ 63 - 1 := rfl
    have hlast : Revision.maxOffset = 2 ^ 64 - 1 := rfl
    have hstop : moved.tailOffset = p.tailOffset + trial.attempt.size := rfl
    rw [Partition.commitOf, Revision.advancedBy, hoffset, Nat.min_eq_left (by omega), ← hstop,
      Partition.tail, hmovedNumber]
    rfl
  have hput := numbers_putPartition h.numbers_eq hall.isWellFormed.lt hmovedNumber
  obtain ⟨hself, hothers⟩ :=
    get_tails_putPartition h.numbers_eq hall.isWellFormed.lt hmovedNumber
  have hresult : trial.result
      = .ok (.committed (commitOf trial.attempt trial.env.ids.next.1 trial.env.now)) := by
    rw [Trial.result, hrun]
  refine .committed hall hresult rfl ?_ ?_ ?_ ?_
  · rw [hactual, hmoved.toNat_tail, hoffset]
    rfl
  · rw [Trial.after, hrun, hactual]
    exact hself
  · rw [Trial.after, hrun]
    exact hothers
  · rw [Trial.after, Trial.later, hrun]
    refine ⟨h.maxEntryBytes, hput, fun q hq => ?_, fun q hq => ?_⟩
    · rcases putPartition_cases_of_numbers h.numbers_eq hq with rfl | ⟨hq, -⟩
      · exact h.handle p hmem
      · exact h.handle q hq
    · rcases putPartition_cases_of_numbers h.numbers_eq hq with rfl | ⟨hq, -⟩
      · exact hmoved
      · exact (h.bounded q hq).write hwrite

/-- The disk has not failed if no answer says so. -/
theorem succeeds_of_result (hresult : ∀ failure path, trial.result ≠ .error (.io failure path)) :
    trial.Succeeds config := by
  intro hall p handle hp hhandle
  obtain ⟨q, -, hq, -, htail, hrefusal⟩ := exists_partition_of_isWellFormed h hall.isWellFormed
  rw [Trial.number, partition, hq] at hp
  obtain rfl := Except.ok.inj hp
  rcases hwrite : Partition.write trial.env.disk handle trial.topic.durable
    (frameOf trial.attempt trial.env.ids.next.1 trial.env.now).encode with ⟨done, written⟩
  cases done with
  | ok done => rfl
  | error failure =>
    have happended : q.append trial.topic.durable trial.attempt trial.env
        = (.error (.io failure q.path.display), q,
            { trial.env with
              disk := (written.setLength handle q.tailBytes).2, ids := trial.env.ids.next.2 }) := by
      unfold Partition.append
      rw [if_neg (by rw [← htail]; exact fun hne => hne hall.expected), hhandle]
      simp only [hwrite]
    have hrun := append_of_refusal?_none trial.env hq hrefusal happended
    exact absurd (by rw [Trial.result, hrun]) (hresult failure q.path.display)

/-- **What an attempt comes to is settled by the attempt, the settings and the tail.** -/
theorem judged_of_ready (hdisk : trial.Succeeds config) : Judged config trial := by
  by_cases hformed : IsWellFormed config trial.attempt
  · by_cases hexpected : trial.attempt.expected = trial.tail
    · cases happend : config.openFlags.contains .append with
      | false => exact judged_of_no_handle h hformed hexpected happend
      | true => exact judged_of_isAdmissible h ⟨hformed, happend, hexpected⟩ hdisk
    · exact judged_of_conflict h hformed hexpected
  · exact judged_of_not_isWellFormed h hformed

end Judge

/-! ## Units of attempts -/

/-- The first of several attempts is served, and the others meet what it has left. -/
theorem appendAll_cons (attempt : RawAttempt) (later : List RawAttempt) (topic : Topic)
    (env : Env) :
    appendAll (attempt :: later) topic env
      = let trial : Trial := ⟨attempt, topic, env⟩
        let rest := appendAll later trial.after trial.later
        (trial.result :: rest.1, rest.2) := rfl

/-- The attempts of a unit, each with the topic and the surroundings that it meets. -/
def trialsOf : List RawAttempt → Topic → Env → List Trial
  | [], _, _ => []
  | attempt :: later, topic, env =>
    let trial : Trial := ⟨attempt, topic, env⟩
    trial :: trialsOf later trial.after trial.later

/-- The results of a unit are the answers to its attempts. -/
theorem map_result_trialsOf (attempts : List RawAttempt) (topic : Topic) (env : Env) :
    (trialsOf attempts topic env).map Trial.result = (appendAll attempts topic env).1 := by
  induction attempts generalizing topic env with
  | nil => rfl
  | cons attempt later ih => rw [trialsOf, List.map_cons, ih, appendAll_cons]

/-- A disk that is not said to fail by any answer of a unit does not fail. -/
theorem succeeds_of_results (attempts : List RawAttempt) : ∀ (topic : Topic) (env : Env),
    Ready config topic env.disk →
    (∀ result ∈ (appendAll attempts topic env).1, ∀ failure path,
      result ≠ .error (.io failure path)) →
    ∀ trial ∈ trialsOf attempts topic env, trial.Succeeds config := by
  induction attempts with
  | nil =>
    intro _ _ _ _ trial htrial
    simp [trialsOf] at htrial
  | cons attempt later ih =>
    intro topic env h hresults
    have hone : Trial.Succeeds config ⟨attempt, topic, env⟩ :=
      succeeds_of_result h (hresults _ List.mem_cons_self)
    have hready : Ready config (Trial.after ⟨attempt, topic, env⟩)
        (Trial.later ⟨attempt, topic, env⟩).disk := by
      cases judged_of_ready h hone with
      | committed _ _ _ _ _ _ hready => exact hready
      | refused _ _ hafter hlater =>
        rw [hafter, hlater]
        exact h
    intro trial htrial
    rcases List.mem_cons.1 htrial with rfl | htrial
    · exact hone
    · exact ih _ _ hready (fun result hresult => hresults result (List.mem_cons_of_mem _ hresult))
        trial htrial

/-- A unit of work that appends, with the topic and the surroundings that it met. -/
structure Batch where
  attempts : List RawAttempt
  topic : Topic
  env : Env

namespace Batch

/-- The attempts, one after another. -/
def trials (batch : Batch) : List Trial := trialsOf batch.attempts batch.topic batch.env

/-- The attempts that have become commits. -/
def won (batch : Batch) : List Trial := batch.trials.filter fun trial => trial.commit?.isSome

/-- The topic and the surroundings when the unit has run as far as it comes. -/
def reached (batch : Batch) : Topic × Env :=
  (perform (.append batch.attempts) batch.topic batch.env).2

end Batch

theorem commitsOf_won (trials : List Trial) :
    commitsOf ((trials.filter fun trial => trial.commit?.isSome).map Trial.result)
      = commitsOf (trials.map Trial.result) := by
  induction trials with
  | nil => rfl
  | cons trial later ih =>
    cases hcommit : trial.commit? with
    | none =>
      rw [List.filter_cons_of_neg (by simp [hcommit]), ih, List.map_cons, commitsOf_cons,
        ← Trial.commit?, hcommit]
      rfl
    | some commit =>
      rw [List.filter_cons_of_pos (by simp [hcommit]), List.map_cons, List.map_cons,
        commitsOf_cons, commitsOf_cons, ih]

/-- Attempts that change nothing can be left out. -/
theorem appendAll_won (attempts : List RawAttempt) : ∀ (topic : Topic) (env : Env),
    (∀ trial ∈ trialsOf attempts topic env, trial.commit? = none →
      trial.after = trial.topic ∧ trial.later = trial.env) →
    let won := (trialsOf attempts topic env).filter fun trial => trial.commit?.isSome
    appendAll (won.map Trial.attempt) topic env
      = (won.map Trial.result, (appendAll attempts topic env).2) := by
  induction attempts with
  | nil => intro _ _ _; rfl
  | cons attempt later ih =>
    intro topic env h
    have hfirst := h ⟨attempt, topic, env⟩ List.mem_cons_self
    have hlater := ih (Trial.after ⟨attempt, topic, env⟩) (Trial.later ⟨attempt, topic, env⟩)
      fun trial htrial => h trial (List.mem_cons_of_mem _ htrial)
    simp only [trialsOf, appendAll_cons attempt] at hlater ⊢
    cases hcommit : Trial.commit? ⟨attempt, topic, env⟩ with
    | none =>
      -- the others meet what the first has met
      obtain ⟨hafter, hsame⟩ := hfirst hcommit
      rw [List.filter_cons_of_neg (by simp [hcommit])]
      rw [hafter, hsame] at hlater ⊢
      exact hlater
    | some commit =>
      rw [List.filter_cons_of_pos (by simp [hcommit]), List.map_cons, List.map_cons]
      simp only [appendAll_cons, hlater]

/-- **Attempts that change nothing leave no trace**: topic, files, and what has been published and
what is still to be published are as if they had not been made. -/
theorem perform_won (batch : Batch)
    (h : ∀ trial ∈ batch.trials, trial.commit? = none →
      trial.after = trial.topic ∧ trial.later = trial.env) :
    ∃ backlog,
      perform (.append batch.attempts) batch.topic batch.env
          = (published (batch.trials.map Trial.result) backlog, batch.reached) ∧
        perform (.append (batch.won.map Trial.attempt)) batch.topic batch.env
          = (published (batch.won.map Trial.result) backlog, batch.reached) := by
  have hall := map_result_trialsOf batch.attempts batch.topic batch.env
  have hwon := appendAll_won batch.attempts batch.topic batch.env h
  have hcommits := commitsOf_won (trialsOf batch.attempts batch.topic batch.env)
  refine ⟨_, by rw [Batch.trials, hall]; rfl, ?_⟩
  simp only at hwon
  rw [hall] at hcommits
  rw [Batch.won, Batch.trials, perform, hwon]
  simp only [hcommits]
  rfl

end CommitLog.Topic
