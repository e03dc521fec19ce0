import CommitLog.Proofs.Opening.ReadOnly
import CommitLog.Proofs.Topic.CrashRecovery

/-!
# What opening changes

Opening a topic may cut a torn end off a partition file, and does nothing else to any file that is
there: `Opens` says so for one partition, by the paths that lead to files. Once opened, the files
are in order, so opening the topic again gives the same topic and changes nothing more. A channel
without the right to append does not even do that: nothing that it is used for makes or changes a
file (`opening_only_cuts_torn_ends`).
-/

namespace CommitLog.Topic

open CommitLog.Disk (AddsDirectories Entry top)
open CommitLog.Frame (IsCommit)
open CommitLog.Partition (Scan encodeAll encodeAll_cons encodeAll_nil scanFile)

variable {config : Config} {disk made after : Disk} {root : Path} {name : String} {topic : Topic}
  {here : Nat} {p : Partition} {found : Scan}

/-- A partition has been opened whose file scanned like this before. -/
structure Opens (config : Config) (disk after : Disk) (p : Partition) (found : Scan) : Prop where
  scan : scanFile disk p.path config.maxEntryBytes config.effectiveMaxMapBytes = .ok found
  /-- The index is what the scan has found, whether the file is cut or not. -/
  frames : p.frames = found.frames
  tailOffset : p.tailOffset = found.entries
  tailBytes : p.tailBytes = found.validBytes
  /-- A file that was there is still there, and is as it was or cut to its whole frames. -/
  file : ∀ file, disk.resolve p.path = .ok (.file file) →
    after.resolve p.path = .ok (.file file) ∧
      (after.content file = disk.content file ∨
        found.torn.isSome ∧ config.openFlags.contains .append = true ∧
          config.repairTornTail = true ∧
          after.content file = (disk.content file).take found.validBytes)
  rescan : config.openFlags.contains .append = true →
    scanFile after p.path config.maxEntryBytes config.effectiveMaxMapBytes
      = .ok { found with torn := none }

theorem OpenedFrom.opens {directory : Path} (h : OpenedFrom config directory here disk after p found)
    (hnames : disk.Names p.path (filePlace here p.number)) : Opens config disk after p found where
  scan := h.scan
  frames := h.standing.frames.trans (settled_fields config found).1
  tailOffset := h.standing.tailOffset.trans (settled_fields config found).2.1
  tailBytes := h.standing.tailBytes.trans (settled_fields config found).2.2
  file file hfile := by
    obtain ⟨hthere, hcontent⟩ :=
      h.file file ((hnames.resolve_eq_file_iff (short_fileName p.number)).1 hfile)
    exact ⟨(h.standing.names.resolve_eq_file_iff (short_fileName p.number)).2 hthere, hcontent⟩
  rescan happend := by rw [h.standing.scan, settled, if_pos happend]

namespace OpenedTopic

variable (h : OpenedTopic config root name topic disk made after here)

include h

theorem names {p : Partition} (hp : p ∈ topic.partitions) :
    p.path = filePath root name p.number ∧ made.Names p.path (filePlace here p.number) := by
  obtain ⟨found, hopened⟩ := h.opened p hp
  have hstanding := hopened.standing
  have hallowed := hstanding.names.allowed
  refine ⟨hstanding.path_eq, ?_⟩
  rw [hstanding.path_eq] at hallowed ⊢
  exact Disk.names_child (Disk.follow_of_resolve h.directory) (isName_fileName p.number) hallowed

/-- Files that are no partition of the topic are left alone. -/
theorem other_file {path : Path} {file : Nat} (hfile : made.resolve path = .ok (.file file))
    (hother : ∀ p ∈ topic.partitions, made.resolve p.path ≠ .ok (.file file)) :
    after.resolve path = .ok (.file file) ∧ after.content file = made.content file := by
  obtain ⟨place, hentry⟩ := Disk.exists_entry_of_resolve_file hfile
  refine ⟨h.spares.grows.resolve h.adds.sound hfile, h.spares.content_kept place file ?_ hentry⟩
  rintro number hnumber rfl
  rw [← h.numbers] at hnumber
  obtain ⟨p, hp, rfl⟩ := List.mem_map.1 hnumber
  exact hother p hp (((h.names hp).2.resolve_eq_file_iff (short_fileName p.number)).2 hentry)

end OpenedTopic

/-- Reading goes by the names and bytes of a disk alone. -/
theorem read_congr {later : Disk} (hdirectories : later.directories = after.directories)
    (hcontents : later.contents = after.contents) (topic : Topic) (start : Revision) (count : Nat) :
    topic.read later start count = topic.read after start count := by
  have hread := Disk.read_congr hdirectories hcontents
  simp only [Topic.read, Partition.read, hread]

/-- **Opening changes a partition file only by cutting a torn end, and opening again changes nothing
more.** Nothing is assumed of the files, nor of what goes wrong on the disk. When a topic opens, its
directory has been made if it was missing; each partition file is as it was, or was torn and has been
cut to its whole frames because the settings say so; the index is what the scan of the file has
found; and no other file has changed. On any disk with these names and bytes the same settings give
the same topic again, and leave the disk as it is.

Without the right to append, opening a channel and everything that the channel is used for leave all
files of the disk as they are and make none, whatever happens to the disk in between. -/
theorem opening_only_cuts_torn_ends (root : Path) (config : Config) :
    (∀ (name : String) (disk : Disk) (topic : Topic) (after : Disk), disk.Sound →
      recover config root name disk = (.ok topic, after) →
      (∃ made, AddsDirectories disk made ∧
        (disk.isDirectory (root.child name) = true → made = disk) ∧
        topic.partitions.map Partition.number = partitionNumbers config ∧
        (∀ p ∈ topic.partitions, p.path = filePath root name p.number ∧
          ∃ found, Opens config made after p found) ∧
        ∀ path file, made.resolve path = .ok (.file file) →
          (∀ p ∈ topic.partitions, made.resolve p.path ≠ .ok (.file file)) →
          after.resolve path = .ok (.file file) ∧ after.content file = made.content file) ∧
      (config.openFlags.contains .append = true → topic.verify after = .ok topic.tails) ∧
      ∀ later : Disk, later.directories = after.directories → later.contents = after.contents →
        recover config root name later = (.ok topic, later) ∧
          ∀ start count, topic.read later start count = topic.read after start count) ∧
    (config.openFlags.contains .append = false →
      (∀ disk : Disk, disk.Sound → AddsDirectories disk (Channel.openAt root config disk).2) ∧
      ∀ (σ : Type) (channel : Channel), Channel.Lived σ root config channel →
        ∀ (use : Channel.Use σ) (env : Env), env.disk.Sound →
          AddsDirectories env.disk (use.run channel env).2.disk) := by
  refine ⟨?_, ?_⟩
  · intro name disk topic after hsound hrun
    obtain ⟨made, here, h⟩ := recover_ok hsound hrun
    refine ⟨⟨made, h.adds, h.made_eq, h.numbers, ?_, fun path file => h.other_file⟩, h.verify, ?_⟩
    · intro p hp
      obtain ⟨found, hopened⟩ := h.opened p hp
      exact ⟨(h.names hp).1, found, hopened.opens (h.names hp).2⟩
    · intro later hdirectories hcontents
      exact ⟨h.recover_again hdirectories hcontents, read_congr hdirectories hcontents topic⟩
  · intro happend
    refine ⟨fun disk hsound => Channel.addsDirectories_openAt root config hsound, ?_⟩
    intro σ channel hlived use env hsound
    exact (use.run_harmless (hlived.readOnly happend) env).2 hsound

/-- A file of a whole frame with the first bytes of another behind it is cut to the whole one, and
its topic verifies and is opened again as it is. A channel that may only read opens the topic of the
torn file without touching it. -/
theorem opening_only_cuts_torn_ends_of_torn_frame :
    ∃ (disk : Disk) (topic : Topic) (after : Disk) (channel : Channel) (whole torn : Frame),
      disk.Sound ∧
      disk.read (filePath ⟨["", ""]⟩ "t" 0) = .ok (whole.encode ++ torn.encode.take 10) ∧
      recover {} ⟨["", ""]⟩ "t" disk = (.ok topic, after) ∧
      after.read (filePath ⟨["", ""]⟩ "t" 0) = .ok whole.encode ∧
      topic.verify after = .ok topic.tails ∧
      recover {} ⟨["", ""]⟩ "t" after = (.ok topic, after) ∧
      Channel.openAt ⟨["", ""]⟩ { openFlags := .none } disk = (.ok channel, disk) ∧
      (channel.openTopic "t" { disk }).2.2.disk.contents = disk.contents := by
  let whole : Frame := ⟨⟨1, 2⟩, 3, [107], [[118]]⟩
  let torn : Frame := ⟨⟨4, 5⟩, 6, [107], [[119]]⟩
  have htorn : IsCommit 4194304 torn := by decide
  have hone : encodeAll [whole] = whole.encode := by
    rw [encodeAll_cons, encodeAll_nil, List.append_nil]
  obtain ⟨disk, hcrashed⟩ : ∃ disk, Crashed {} ⟨["", ""]⟩ "t" (fun _ => [whole])
      (fun _ => torn.encode.take 10) disk :=
    exists_crashed (by decide) (by decide) (.cutShort htorn (by decide))
  have hsound := hcrashed.sound
  obtain ⟨file, hfile, hcontent⟩ := hcrashed.files 0 (by decide)
  obtain ⟨topic, after, directory, hrun, -, hkeeps, hhome, hholds, -⟩ :=
    recover_of_crashed hcrashed (by decide) fun _ _ => .inr ⟨rfl, by decide⟩
  have hafter := (hcrashed.of_holds hkeeps hhome hholds hcrashed.isCommit).read
    (show (0 : UInt32) < ({} : Config).partitions by decide)
  obtain ⟨-, hverify, hagain⟩ :=
    (opening_only_cuts_torn_ends ⟨["", ""]⟩ {}).1 "t" disk topic after hsound hrun
  have hopen : Channel.openAt ⟨["", ""]⟩ { openFlags := .none } disk
      = (.ok { root := ⟨["", ""]⟩, config := { openFlags := .none } }, disk) := by rfl
  have hreads := ((opening_only_cuts_torn_ends ⟨["", ""]⟩ { openFlags := .none }).2 (by decide)).2
    Unit _ (.opened hopen) (.openTopic "t") { disk } hsound
  rw [hone] at hafter hcontent
  refine ⟨disk, topic, after, _, whole, torn, hsound, ?_, hrun, hafter, hverify (by decide),
    (hagain after rfl rfl).1, hopen, hreads.contents⟩
  rw [Disk.read_of_resolve hfile, hcontent]

end CommitLog.Topic
