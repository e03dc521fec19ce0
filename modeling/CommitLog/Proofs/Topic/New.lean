import CommitLog.Proofs.Topic.ColdRead
import CommitLog.Topic.Work

/-!
# A topic that was just made

Under default settings, on an empty disk, a topic has one partition and an empty queue. The first
attempt on it becomes a commit. Runs on fixed inputs begin here.
-/

namespace CommitLog.Topic

open CommitLog.Disk (maxFileLength)

variable {topic : Topic} {disk : Disk}

theorem queue_of_recover {config : Config} {root : Path} {name : String} {after : Disk}
    (h : recover config root name disk = (.ok topic, after)) :
    topic.queue = .ofFanout config.fanout := by
  unfold recover at h
  split at h
  next => cases h
  next =>
    dsimp only at h
    split at h
    next => cases h
    next made _ =>
      rcases hall : recoverPartitions config (root.child name) (partitionNumbers config) made
        with ⟨found, last⟩
      rw [hall] at h
      cases found with
      | error failure => cases h
      | ok partitions =>
        cases h
        rfl

/-- The only partition of a new topic. -/
def newPartition : Partition where
  number := 0
  path := ⟨["", "t", "partition-00000.log"]⟩
  handle := some (.file 0)

/-- A topic that was just made, and has not been written to. -/
structure IsNew (topic : Topic) (disk : Disk) : Prop where
  recovered : recover {} ⟨["", ""]⟩ "t" {} = (.ok topic, disk)
  agrees : ∃ folder, Agrees {} topic disk folder []
  partitions : topic.partitions = [newPartition]
  maxEntryBytes : topic.maxEntryBytes = 4194304
  content : disk.content 0 = []
  file_lt : 0 < disk.contents.size

theorem exists_isNew : ∃ topic disk, IsNew topic disk := by
  have htopic : (recover {} ⟨["", ""]⟩ "t" {}).1.toOption.map (fun topic =>
      (topic.partitions, topic.maxEntryBytes)) = some ([newPartition], 4194304) := by decide +kernel
  have hdisk : (recover {} ⟨["", ""]⟩ "t" {}).2.content 0 = [] ∧
      0 < (recover {} ⟨["", ""]⟩ "t" {}).2.contents.size := by decide +kernel
  have hfresh : Fresh ⟨["", ""]⟩ ⟨0, "t"⟩ {} :=
    ⟨by decide, rfl, rfl, rfl, Disk.entryAt?_new _, Disk.sound_new, by simp [Disk.Reliable]⟩
  rcases hopen : recover {} ⟨["", ""]⟩ "t" {} with ⟨result, disk⟩
  rw [hopen] at htopic hdisk
  cases result with
  | error failure => simp [Except.toOption] at htopic
  | ok topic =>
    obtain ⟨hpartitions, hmax⟩ := Prod.mk.inj (Option.some.inj htopic)
    have hagrees := ((Reachable.fresh hfresh).step
      (.opened rfl (by decide) rfl rfl hopen)).consistent.exists_agrees rfl
    exact ⟨topic, disk, hopen, hagrees, hpartitions, hmax, hdisk.1, hdisk.2⟩

/-- The first attempt on a topic. -/
def firstAttempt : RawAttempt where
  key := [107]
  entries := [[118]]
  expected := .origin 0

namespace IsNew

variable (h : IsNew topic disk)

include h

theorem refusal : topic.refusal? firstAttempt = none := by
  rw [refusal?_eq_none, h.maxEntryBytes]
  decide

/-- The first attempt becomes a commit. -/
theorem exists_append : ∃ after later folder commit,
    topic.append firstAttempt { disk } = (.ok (.committed commit), after, later) ∧
      Agrees {} after later.disk folder [commit] ∧
      after = { topic with partitions := after.partitions } := by
  obtain ⟨folder, hagrees⟩ := h.agrees
  obtain ⟨p, hp⟩ : ∃ p, topic.partitions = [p] := ⟨_, h.partitions⟩
  have hmem : p ∈ topic.partitions := hp ▸ List.mem_singleton_self p
  have hexpected : firstAttempt.expected = topic.tails.get 0 := by
    rw [tails, h.partitions]
    rfl
  have hhandle : ∀ p ∈ topic.partitions, p.handle.isSome = true := by
    rw [h.partitions]
    intro p hp
    rw [List.mem_singleton.1 hp]
    rfl
  have hroom : Partition.HasRoom [] firstAttempt { disk } := by
    rw [Partition.HasRoom, Frame.length_encode_eq]
    show (Partition.encodeAll []).length + (Frame.headerSize
      + ((firstAttempt.key :: firstAttempt.entries).flatMap Frame.encodeField).length
      + Frame.wordSize) ≤ maxFileLength
    decide
  obtain ⟨commit, after, later, hrun⟩ := append_of_room { disk } hagrees.holds hagrees.sound
    hagrees.reliable firstAttempt (by decide) hexpected h.refusal hhandle hroom
  have hagrees' : Agrees {} topic ({ disk } : Env).disk folder [] := hagrees
  obtain ⟨hafter, -, honly⟩ := append_agrees hagrees' firstAttempt hrun
  exact ⟨after, later, folder, commit, hrun, hafter, honly⟩

theorem queue : topic.queue = .ring (.ofCapacity 4096) := queue_of_recover h.recovered

/-- Nobody reads live yet, so a commit is handed over at once. -/
theorem publish {after : Topic} (hqueue : after.queue = topic.queue) (commit : RawCommit) :
    (after.publish [commit]).1 = none := by
  have hpieces : after.publish [commit] = publishBatches [[commit]] after := by
    rw [Topic.publish, hqueue, h.queue]
    simp [Queue.capacity?, Queue.Ring.capacity, Queue.Ring.ofCapacity, pieces]
  have hbegin : Queue.Transaction.ofBatch after.queue [commit] = .ok ⟨1, [commit]⟩ := by
    rw [hqueue, h.queue]
    simp [Queue.Transaction.ofBatch, Queue.Transaction.begin, Queue.isClosed, Queue.capacity?,
      Queue.Ring.capacity, Queue.Ring.ofCapacity, Queue.Transaction.add, bind, Except.bind, pure,
      Except.pure]
  have hpublished : (Queue.publish after.queue [commit]).1 = .published := by
    rw [hqueue, h.queue]
    simp [Queue.publish, Queue.Ring.publish, Queue.Ring.refusal?, Queue.Ring.resume,
      Queue.Ring.claim, Queue.Ring.capacity, Queue.Ring.ofCapacity, Queue.Ring.gate]
  rcases hrun : Queue.publish after.queue [commit] with ⟨progress, queue⟩
  rw [hrun] at hpublished
  obtain rfl : progress = .published := hpublished
  rw [hpieces, publishBatches, publishBatch, hbegin]
  simp only [Queue.Transaction.commit, hrun]
  rfl

/-- The first attempt is served without waiting. -/
theorem exists_perform : ∃ commit after later,
    perform (.append [firstAttempt]) topic { disk }
      = (.done (.results [.ok (.committed commit)]), after, later) := by
  obtain ⟨after, later, folder, commit, hrun, hafter, honly⟩ := h.exists_append
  have hqueue : after.queue = topic.queue := by rw [honly]
  have hcommits : commitsOf [.ok (.committed commit)] = [commit] := rfl
  rcases hpublish : after.publish [commit] with ⟨backlog, published⟩
  obtain rfl : backlog = none := by
    rw [← h.publish hqueue commit, hpublish]
  refine ⟨commit, published, later, ?_⟩
  simp only [perform, appendAll, hrun, hcommits, hpublish, Topic.published]

end IsNew

end CommitLog.Topic
