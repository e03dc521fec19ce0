import CommitLog.Channel
import CommitLog.Proofs.Lookup
import CommitLog.Proofs.Partition.Faults
import CommitLog.Proofs.Topic.Reopening

/-!
# Channels that may only read

A channel that was opened without the right to append has no file open in any of its topics. So
there is nothing that its actors could write to, whatever is submitted to them, and nothing to
release when it closes: all that a use of the channel can do to a disk is to make directories, and
that only if the settings say so. `Use` lists what a channel is used for, and `Lived` the channels
that come of it, while anything at all may happen to the disk between two uses.
-/

namespace CommitLog

open Disk (AddsDirectories)

/-! ## Actors -/

namespace Actor

variable {ρ υ α : Type} {behaviour : Behaviour ρ υ α} {holds : ρ → Prop}

section Preserves

variable (hrun : ∀ unit resource, holds resource → holds (behaviour.run unit resource).2)
  (hteardown : ∀ unit resource, holds resource → holds (behaviour.teardown unit resource).2)

include hrun

theorem resume_preserves (actor : Actor υ α) {resource : ρ} (h : holds resource) :
    holds (actor.resume behaviour resource).2 := by
  unfold resume
  split
  · exact h
  · exact hrun _ _ h

include hteardown

theorem begin_preserves (actor : Actor υ α) (ticket : Ticket) (envelope : Envelope υ)
    {resource : ρ} (h : holds resource) :
    holds (actor.begin behaviour ticket envelope resource).2 := by
  cases envelope with
  | run unit =>
    simp only [begin]
    split
    · exact h
    · exact hrun _ _ h
  | close teardown => exact hteardown _ _ h

theorem work_preserves (pending : List (Ticket × Envelope υ)) : ∀ (actor : Actor υ α)
    {resource : ρ}, holds resource → holds (work behaviour pending actor resource).2 := by
  induction pending with
  | nil => exact fun _ _ h => h
  | cons first later ih =>
    intro actor resource h
    rw [work]
    split
    · exact h
    · exact ih _ (begin_preserves hrun hteardown actor first.1 first.2 h)

/-- What every unit of work keeps up, an actor keeps up. -/
theorem settle_preserves (actor : Actor υ α) {resource : ρ} (h : holds resource) :
    holds (actor.settle behaviour resource).2 :=
  work_preserves hrun hteardown _ _ (resume_preserves hrun actor h)

end Preserves

end Actor

/-! ## Topics -/

namespace Topic

/-- No file of the topic is open. -/
def ReadOnly (topic : Topic) : Prop := ∀ p ∈ topic.partitions, p.handle = none

theorem readOnly_congr {topic after : Topic} (h : after.partitions = topic.partitions)
    (hclosed : topic.ReadOnly) : after.ReadOnly := by
  unfold ReadOnly
  rw [h]
  exact hclosed

/-- The topic has no file open, and the disk is this one. -/
def Untouched (disk : Disk) (resource : Topic × Env) : Prop :=
  resource.1.ReadOnly ∧ resource.2.disk = disk

variable {topic : Topic} {env : Env} {disk : Disk}

theorem mem_partitions_of_partition {number : UInt32} {p : Partition}
    (h : topic.partition number = .ok p) : p ∈ topic.partitions := by
  unfold partition at h
  split at h
  next found hfound => exact Except.ok.inj h ▸ List.mem_of_getElem? hfound
  next => simp at h

/-- Nothing is written to a partition that is not open, so it is put back as it was. -/
theorem append_untouched (attempt : RawAttempt) (h : Untouched disk (topic, env)) :
    Untouched disk (topic.append attempt env).2 := by
  unfold append
  dsimp only
  split
  next => exact h
  next p hp =>
    split
    next => exact h
    next =>
      have hclosed := h.1 p (mem_partitions_of_partition hp)
      obtain ⟨answer, hrun, -⟩ := Partition.append_of_closed hclosed topic.durable attempt env
      rw [hrun]
      refine ⟨fun q hq => ?_, h.2⟩
      rcases List.mem_or_eq_of_mem_set hq with hq | rfl
      · exact h.1 q hq
      · exact hclosed

theorem appendAll_untouched (attempts : List RawAttempt) : ∀ (topic : Topic) (env : Env),
    Untouched disk (topic, env) → Untouched disk (appendAll attempts topic env).2 := by
  induction attempts with
  | nil => exact fun _ _ h => h
  | cons attempt later ih => exact fun topic env h => ih _ _ (append_untouched attempt h)

theorem publishBatches_partitions (batches : List (List RawCommit)) : ∀ topic : Topic,
    (publishBatches batches topic).2.partitions = topic.partitions := by
  induction batches with
  | nil => exact fun _ => rfl
  | cons batch later ih =>
    intro topic
    rw [publishBatches]
    split
    · exact ih _
    · rfl
    · rfl

theorem resumePublishing_partitions (topic : Topic) (backlog : Backlog) :
    (topic.resumePublishing backlog).2.partitions = topic.partitions := by
  unfold resumePublishing
  split
  · exact publishBatches_partitions _ _
  · rfl
  · rfl

theorem release_of_readOnly : ∀ (ps : List Partition) (disk : Disk),
    (∀ p ∈ ps, p.handle = none) →
    (∀ p ∈ (release ps disk).1, p.handle = none) ∧ (release ps disk).2 = disk := by
  intro ps
  induction ps with
  | nil => exact fun _ _ => ⟨nofun, rfl⟩
  | cons p later ih =>
    intro disk h
    obtain ⟨hp, hlater⟩ := List.forall_mem_cons.1 h
    rw [release, hp]
    obtain ⟨hclosed, hdisk⟩ := ih disk hlater
    exact ⟨List.forall_mem_cons.2 ⟨rfl, hclosed⟩, hdisk⟩

theorem shutDown_untouched (h : Untouched disk (topic, env)) :
    Untouched disk (topic.shutDown env) := by
  obtain ⟨hclosed, hdisk⟩ := release_of_readOnly topic.partitions env.disk h.1
  exact ⟨hclosed, hdisk.trans h.2⟩

/-- **No unit of work touches the disk of a topic that may only be read.** -/
theorem perform_untouched (task : Task) (h : Untouched disk (topic, env)) :
    Untouched disk (perform task topic env).2 := by
  cases task with
  | append attempts =>
    have happended := appendAll_untouched attempts topic env h
    exact ⟨readOnly_congr (publishBatches_partitions _ _) happended.1,
      happended.2⟩
  | publish results backlog =>
    exact ⟨readOnly_congr (resumePublishing_partitions topic backlog) h.1, h.2⟩
  | tails => exact h
  | register => exact h
  | shutDown => exact shutDown_untouched h

/-! ## Recovering -/

section Recover

variable {config : Config} (happend : config.openFlags.contains .append = false)

include happend

theorem recoverPartition_readOnly {directory : Path} {number : UInt32} {disk after : Disk}
    {result : Except LogError Partition}
    (h : recoverPartition config directory number disk = (result, after)) :
    after = disk ∧ ∀ p, result = .ok p → p.handle = none := by
  unfold recoverPartition at h
  dsimp only at h
  split at h
  next =>
    obtain ⟨rfl, rfl⟩ := h
    exact ⟨rfl, nofun⟩
  next found _ =>
    have hrepair : (repair config disk (directory.child (fileName number)) found).2 = disk := by
      unfold repair
      split
      · rfl
      · split
        · rfl
        · rw [if_neg (by simp [happend])]
    split at h
    next hfail =>
      rw [hfail] at hrepair
      obtain ⟨rfl, rfl⟩ := h
      exact ⟨hrepair, nofun⟩
    next hdone =>
      rw [hdone] at hrepair
      simp only [openFile, happend, Bool.false_eq_true, if_false] at h
      obtain ⟨rfl, rfl⟩ := h
      refine ⟨hrepair, fun p hp => ?_⟩
      obtain rfl := Except.ok.inj hp
      rfl

theorem recoverPartitions_readOnly {directory : Path} {disk : Disk} (numbers : List UInt32) :
    ∀ {after : Disk} {result : Except LogError (List Partition)},
    recoverPartitions config directory numbers disk = (result, after) →
    after = disk ∧ ∀ ps, result = .ok ps → ∀ p ∈ ps, p.handle = none := by
  induction numbers with
  | nil =>
    intro after result h
    obtain ⟨rfl, rfl⟩ := h
    refine ⟨rfl, fun ps hps => ?_⟩
    obtain rfl := Except.ok.inj hps
    exact List.forall_mem_nil _
  | cons number later ih =>
    intro after result h
    rw [recoverPartitions] at h
    split at h
    next hone =>
      obtain ⟨rfl, rfl⟩ := h
      refine ⟨(recoverPartition_readOnly happend hone).1, fun ps hps => ?_⟩
      cases hps
    next p middle hone =>
      obtain ⟨rfl, hp⟩ := recoverPartition_readOnly happend hone
      rcases hrest : recoverPartitions config directory later middle with ⟨rest, last⟩
      obtain ⟨hlast, hclosed⟩ := ih hrest
      simp only [hrest, Prod.mk.injEq] at h
      obtain ⟨rfl, rfl⟩ := h
      refine ⟨hlast, fun ps hps => ?_⟩
      cases rest with
      | error e => simp at hps
      | ok qs =>
        obtain rfl := Except.ok.inj hps
        exact List.forall_mem_cons.2 ⟨hp p rfl, hclosed qs rfl⟩

/-- A topic that is opened for reading has no file open, and directories at most are made. -/
theorem recover_readOnly {root : Path} {name : String} {disk after : Disk}
    {result : Except LogError Topic} (h : recover config root name disk = (result, after)) :
    (disk.Sound → AddsDirectories disk after) ∧ ∀ topic, result = .ok topic → topic.ReadOnly := by
  unfold recover at h
  split at h
  next =>
    obtain ⟨rfl, rfl⟩ := h
    exact ⟨.refl, nofun⟩
  next =>
    have hadds (hsound : disk.Sound) :=
      addsDirectories_ensureDirectory config (root.child name) name hsound
    rcases hensure : ensureDirectory config (root.child name) name disk with ⟨e | _, made⟩
    all_goals rw [hensure] at hadds
    · simp only [hensure] at h
      obtain ⟨rfl, rfl⟩ := h
      exact ⟨hadds, nofun⟩
    · rcases hrun : recoverPartitions config (root.child name) (partitionNumbers config) made with
        ⟨found, last⟩
      obtain ⟨rfl, hclosed⟩ := recoverPartitions_readOnly happend _ hrun
      simp only [hensure, hrun] at h
      obtain ⟨rfl, rfl⟩ := h
      refine ⟨hadds, fun topic htopic => ?_⟩
      cases found with
      | error e => simp [Except.map] at htopic
      | ok ps =>
        obtain rfl := Except.ok.inj htopic
        exact hclosed ps rfl

end Recover

end Topic

/-! ## Services -/

namespace Topic.Service

variable {disk : Disk} {env : Env}

/-- A service whose topic may only be read. -/
def ReadOnly (service : Service) : Prop := service.topic.ReadOnly

theorem ReadOnly.settle_readOnly {service : Service} (h : service.ReadOnly) (env : Env) :
    (service.settle env).1.ReadOnly ∧ (service.settle env).2.disk = env.disk :=
  have huntouched : Untouched env.disk (service.topic, env) := ⟨h, rfl⟩
  Actor.settle_preserves (fun task _ => perform_untouched task) (fun _ _ => shutDown_untouched)
    service.actor huntouched

theorem ReadOnly.closeQueue_readOnly {service : Service} (h : service.ReadOnly) (env : Env) :
    (service.closeQueue env).1.ReadOnly ∧ (service.closeQueue env).2.disk = env.disk :=
  have huntouched : Untouched env.disk ((service.mapQueue Queue.stop).topic, env) := ⟨h, rfl⟩
  have hresumed : Untouched env.disk
      (service.actor.resume behaviour ((service.mapQueue Queue.stop).topic, env)).2 :=
    Actor.resume_preserves (fun task _ => perform_untouched task) _ huntouched
  hresumed

theorem ReadOnly.shut_readOnly {service : Service} (h : service.ReadOnly) (env : Env) :
    (service.shut env).1.ReadOnly ∧ (service.shut env).2.disk = env.disk :=
  have hclosing : ReadOnly { service with actor := (service.actor.requestClose .shutDown).2 } := h
  hclosing.settle_readOnly env

end Topic.Service

/-! ## Channels -/

namespace Channel

variable {σ : Type} {channel after : Channel} {env later : Env} {root : Path} {config : Config}

/-- Files may not be changed through the channel, and none is open. -/
structure ReadOnly (channel : Channel) : Prop where
  append : channel.config.openFlags.contains .append = false
  services : ∀ entry ∈ channel.services, entry.2.ReadOnly

/-- What a channel is used for. -/
inductive Use (σ : Type) where
  | openTopic (name : String)
  | request (name : String) (start : Revision) (count : Nat)
  | verify (name : String)
  | load (name : String) (subscriber : Subscriber σ) (start : Revisions) (stop : Option Revisions)
      (state : σ)
  | append (name : String) (attempts : List RawAttempt)
  /-- Attempts of a sender who found the channel open, whatever has become of it. -/
  | appendLate (name : String) (attempts : List RawAttempt)
  | submit (name : String) (task : Topic.Task)
  /-- The actors go on as far as they can. -/
  | settle
  /-- A delivery takes from the queue of a topic, or removes its consumer. -/
  | deliver (name : String) (change : Queue RawCommit → Queue RawCommit)
  | closeQueues
  | close

/-- What a use does to the channel and its surroundings. -/
def Use.run : Use σ → Channel → Env → Channel × Env
  | .openTopic name, channel, env => (channel.openTopic name env).2
  | .request name start count, channel, env => (channel.request name start count env).2
  | .verify name, channel, env => (channel.verify name env).2
  | .load name subscriber start stop state, channel, env =>
    (channel.load name subscriber start stop state env).2
  | .append name attempts, channel, env => (channel.submitAppend name attempts env).2
  | .appendLate name attempts, channel, env =>
    let (used, env) := ({ channel with closed := false }.submitAppend name attempts env).2
    ({ used with closed := channel.closed }, env)
  | .submit name task, channel, env => (channel.submit name task env).2
  | .settle, channel, env => channel.settle env
  | .deliver name change, channel, env =>
    match channel.service? name with
    | some service => (channel.putService name (service.mapQueue change), env)
    | none => (channel, env)
  | .closeQueues, channel, env => channel.closeQueues env
  | .close, channel, env => channel.close env

/-- Channels that were opened with these settings and used in any way, with any surroundings each
time. -/
inductive Lived (σ : Type) (root : Path) (config : Config) : Channel → Prop
  | opened {channel : Channel} {disk after : Disk}
      (h : openAt root config disk = (.ok channel, after)) : Lived σ root config channel
  | used {channel : Channel} (h : Lived σ root config channel) (use : Use σ) (env : Env) :
      Lived σ root config (use.run channel env).1

/-- The channel may only be read still, and nothing but directories is made. -/
def Harmless (env : Env) (outcome : Channel × Env) : Prop :=
  outcome.1.ReadOnly ∧ (env.disk.Sound → AddsDirectories env.disk outcome.2.disk)

theorem harmless_refl (h : channel.ReadOnly) (env : Env) : Harmless env (channel, env) :=
  ⟨h, .refl⟩

theorem Harmless.trans {middle outcome : Channel × Env} (h : Harmless env middle)
    (h' : Harmless middle.2 outcome) : Harmless env outcome :=
  ⟨h'.1, fun hsound => (h.2 hsound).trans (h'.2 (h.2 hsound).sound)⟩

theorem ReadOnly.putService (h : channel.ReadOnly) {service : Topic.Service}
    (hservice : service.ReadOnly) (name : String) : (channel.putService name service).ReadOnly where
  append := h.append
  services := List.forall_mem_cons.2 ⟨hservice, fun entry hentry =>
    h.services entry (List.mem_of_mem_filter hentry)⟩

theorem ReadOnly.of_service? (h : channel.ReadOnly) {name : String} {service : Topic.Service}
    (hservice : channel.service? name = some service) : service.ReadOnly :=
  h.services _ (mem_of_lookup hservice)

/-- Opening a topic for reading changes no file. -/
theorem topic_harmless (h : channel.ReadOnly) (name : String) (env : Env) :
    Harmless env (channel.topic name env).2 ∧
      ∀ service, (channel.topic name env).1 = .ok service → service.ReadOnly := by
  unfold topic
  split
  next => exact ⟨harmless_refl h env, nofun⟩
  next =>
    split
    next service hservice =>
      refine ⟨harmless_refl h env, fun found hfound => ?_⟩
      obtain rfl := Except.ok.inj hfound
      exact h.of_service? hservice
    next =>
      rcases hrun : Topic.recover channel.config channel.root name env.disk with ⟨e | topic, disk⟩
      · exact ⟨⟨h, (Topic.recover_readOnly h.append hrun).1⟩, nofun⟩
      · obtain ⟨hadds, hclosed⟩ := Topic.recover_readOnly h.append hrun
        have hservice : (Topic.Service.start topic channel.config.actorMailbox).ReadOnly :=
          hclosed topic rfl
        refine ⟨⟨h.putService hservice name, hadds⟩, fun found hfound => ?_⟩
        obtain rfl := Except.ok.inj hfound
        exact hservice

/-- Asking for what the index and the files say changes neither. -/
theorem consult_harmless {α : Type} (h : channel.ReadOnly) (name : String) (env : Env)
    (question : Topic → Disk → Except LogError α) :
    Harmless env (channel.consult name env question).2 := by
  have htopic := (topic_harmless h name env).1
  unfold consult
  split
  next hrun => rwa [hrun] at htopic
  next hrun => rwa [hrun] at htopic

theorem load_harmless (h : channel.ReadOnly) (name : String) (subscriber : Subscriber σ)
    (start : Revisions) (stop : Option Revisions) (state : σ) (env : Env) :
    Harmless env (channel.load name subscriber start stop state env).2 := by
  have htopic := (topic_harmless h name env).1
  unfold load
  split
  next hrun => rwa [hrun] at htopic
  next hrun => rwa [hrun] at htopic

theorem submit_harmless (h : channel.ReadOnly) (name : String) (task : Topic.Task) (env : Env) :
    Harmless env (channel.submit name task env).2 := by
  obtain ⟨htopic, hopened⟩ := topic_harmless h name env
  unfold submit
  split
  next hrun => rwa [hrun] at htopic
  next service _ _ hrun =>
    rw [hrun] at htopic hopened
    have hservice : (service.submit task).2.ReadOnly := hopened service rfl
    exact ⟨htopic.1.putService hservice name, htopic.2⟩

/-- An attempt is refused before anything is opened for it. -/
theorem submitAppend_eq (h : channel.ReadOnly) (name : String) (attempts : List RawAttempt)
    (env : Env) : channel.submitAppend name attempts env
      = (.error (.invalidOperation .withoutAppend), channel, env) := by
  unfold submitAppend checkWritable
  rw [h.append, if_neg Bool.false_ne_true]

/-- What changes no topic that may only be read changes no channel. -/
theorem mapServices_readOnly {change : Topic.Service → Env → Topic.Service × Env}
    (hchange : ∀ service env, service.ReadOnly →
      (change service env).1.ReadOnly ∧ (change service env).2.disk = env.disk)
    (services : List (String × Topic.Service)) : ∀ env : Env,
    (∀ entry ∈ services, entry.2.ReadOnly) →
      (∀ entry ∈ (mapServices change services env).1, entry.2.ReadOnly) ∧
        (mapServices change services env).2.disk = env.disk := by
  induction services with
  | nil => exact fun _ h => ⟨h, rfl⟩
  | cons first later ih =>
    intro env h
    obtain ⟨hfirst, hlater⟩ := List.forall_mem_cons.1 h
    obtain ⟨hone, hdisk⟩ := hchange first.2 env hfirst
    obtain ⟨hrest, hlast⟩ := ih (change first.2 env).2 hlater
    exact ⟨List.forall_mem_cons.2 ⟨hone, hrest⟩, hlast.trans hdisk⟩

theorem forServices_harmless {change : Topic.Service → Env → Topic.Service × Env}
    (hchange : ∀ service env, service.ReadOnly →
      (change service env).1.ReadOnly ∧ (change service env).2.disk = env.disk)
    (h : channel.ReadOnly) (env : Env) : Harmless env (channel.forServices env change) := by
  obtain ⟨hservices, hdisk⟩ := mapServices_readOnly hchange channel.services env h.services
  refine ⟨⟨h.append, hservices⟩, fun hsound => ?_⟩
  rw [show (channel.forServices env change).2.disk = env.disk from hdisk]
  exact .refl hsound

/-- **One use of a channel that may only be read makes directories at most**, and leaves it so. -/
theorem Use.run_harmless (use : Use σ) (h : channel.ReadOnly) (env : Env) :
    Harmless env (use.run channel env) := by
  cases use with
  | openTopic name => exact consult_harmless h name env _
  | request name start count => exact consult_harmless h name env _
  | verify name => exact consult_harmless h name env _
  | load name subscriber start stop state =>
    exact load_harmless h name subscriber start stop state env
  | append name attempts =>
    rw [run, submitAppend_eq h]
    exact harmless_refl h env
  | appendLate name attempts =>
    have hopen : ReadOnly { channel with closed := false } := ⟨h.append, h.services⟩
    rw [run, submitAppend_eq hopen]
    exact harmless_refl ⟨h.append, h.services⟩ env
  | submit name task => exact submit_harmless h name task env
  | settle => exact forServices_harmless (fun _ env h => h.settle_readOnly env) h env
  | deliver name change =>
    simp only [run]
    split
    next service hservice =>
      have hclosed : service.ReadOnly := h.of_service? hservice
      have hchanged : (service.mapQueue change).ReadOnly := hclosed
      exact harmless_refl (h.putService hchanged name) env
    next => exact harmless_refl h env
  | closeQueues => exact forServices_harmless (fun _ env h => h.closeQueue_readOnly env) h env
  | close =>
    simp only [run, Channel.close]
    split
    next => exact harmless_refl h env
    next =>
      have hclosing : ReadOnly { channel with closed := true } := ⟨h.append, h.services⟩
      have hqueues := forServices_harmless (fun _ env h => h.closeQueue_readOnly env) hclosing env
      exact hqueues.trans (forServices_harmless (fun _ env h => h.shut_readOnly env) hqueues.1 _)

/-- Opening a channel makes directories at most, whatever it is opened for. -/
theorem addsDirectories_openAt (root : Path) (config : Config) {disk : Disk}
    (hsound : disk.Sound) : AddsDirectories disk (openAt root config disk).2 := by
  have hmade := (Disk.addsDirectories_makeDirectories hsound root).1
  unfold openAt
  split
  next => exact .refl hsound
  next =>
    split
    next =>
      split
      next hrun => rwa [hrun] at hmade
      next hrun => rwa [hrun] at hmade
    next =>
      split
      next => exact .refl hsound
      next => exact .refl hsound

theorem eq_of_openAt {disk last : Disk} (h : openAt root config disk = (.ok channel, last)) :
    channel = { root, config } := by
  unfold openAt at h
  split at h
  next => simp at h
  next =>
    split at h
    next =>
      split at h
      next => exact (Except.ok.inj (congrArg Prod.fst h)).symm
      next => simp at h
    next =>
      split at h
      next => exact (Except.ok.inj (congrArg Prod.fst h)).symm
      next => simp at h

/-- A channel that was opened without the right to append may only be read, whatever it has been
used for. -/
theorem Lived.readOnly (happend : config.openFlags.contains .append = false)
    (h : Lived σ root config channel) : channel.ReadOnly := by
  induction h with
  | opened h =>
    obtain rfl := eq_of_openAt h
    exact ⟨happend, nofun⟩
  | used h use env ih => exact (use.run_harmless ih env).1

end Channel

end CommitLog
