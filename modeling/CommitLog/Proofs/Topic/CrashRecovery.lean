import CommitLog.Proofs.Partition.Read
import CommitLog.Proofs.Topic.Append

/-!
# Recovery from a crash

A crash cuts the last write to a file short, or leaves zeros where it was to be. Opening the topic
afterwards brings every file back to its whole frames, and the log goes on from there as if the
write had never begun: `crash_recovery`.
-/

namespace CommitLog.Topic

open CommitLog.Disk (Place Keeps top)
open CommitLog.Frame (IsCommit)
open CommitLog.Partition (encodeAll entryCount Leftover HasRoom scan)

variable {config : Config} {root : Path} {name : String} {frames : UInt32 → List Frame}
  {leftover : UInt32 → Bytes} {disk : Disk} {number : UInt32}

/-- The files of a topic after a crash: whole frames, and what the crash has left behind them. -/
structure Crashed (config : Config) (root : Path) (name : String) (frames : UInt32 → List Frame)
    (leftover : UInt32 → Bytes) (disk : Disk) : Prop where
  sound : disk.Sound
  reliable : disk.Reliable
  directory : disk.isDirectory (root.child name) = true
  files : ∀ number, number < config.partitions → ∃ file,
    disk.resolve (filePath root name number) = .ok (.file file) ∧
      disk.content file = encodeAll (frames number) ++ leftover number
  isCommit : ∀ number, number < config.partitions → ∀ frame ∈ frames number,
    IsCommit config.maxEntryBytes frame
  isLeftover : ∀ number, number < config.partitions →
    Leftover config.maxEntryBytes (leftover number)

/-- The places of the files that a crash has left. -/
theorem Crashed.exists_places (h : Crashed config root name frames leftover disk)
    (hname : isValidName name = true) :
    ∃ here there, disk.follow (.directory top) root.segments = .ok (.directory here) ∧
      disk.entryAt? ⟨here, name⟩ = some (.directory there) ∧
      ∀ number, number < config.partitions →
        disk.Names (filePath root name number) (filePlace there number) ∧
        ∃ file, disk.entryAt? (filePlace there number) = some (.file file) ∧
          disk.content file = encodeAll (frames number) ++ leftover number := by
  obtain ⟨there, hresolve⟩ := Disk.exists_of_isDirectory h.directory
  obtain ⟨here, hroot, -, -, hthere⟩ :=
    Disk.exists_names_of_resolve (isName_of_isValidName hname) hresolve
  refine ⟨here, there, hroot, hthere, ?_⟩
  intro number hnumber
  obtain ⟨file, hfile, hcontent⟩ := h.files number hnumber
  obtain ⟨inside, hinside, hpath, -, hentry⟩ :=
    Disk.exists_names_of_resolve (isName_fileName number) hfile
  rw [Disk.follow_of_resolve hresolve] at hinside
  obtain rfl := Disk.Entry.directory.inj (Except.ok.inj hinside)
  exact ⟨hpath, file, hentry, hcontent⟩

/-- The directory that holds the files of a topic. -/
def IsHome (config : Config) (root : Path) (name : String) (disk : Disk) (directory : Nat) : Prop :=
  ∀ number, number < config.partitions → ∀ file,
    disk.resolve (filePath root name number) = .ok (.file file) →
    disk.entryAt? (filePlace directory number) = some (.file file)

/-- Opening after a crash succeeds, and the topic holds the whole frames of every file. -/
theorem recover_of_crashed (h : Crashed config root name frames leftover disk)
    (hname : isValidName name = true)
    (hrepair : ∀ number, number < config.partitions → leftover number = [] ∨
      config.repairTornTail = true ∧ config.openFlags.contains .append = true) :
    ∃ topic after directory, recover config root name disk = (.ok topic, after) ∧
      topic.maxEntryBytes = config.maxEntryBytes ∧ Keeps disk after (fun _ => False) ∧
      IsHome config root name disk directory ∧
      topic.Holds after ⟨root.child name, directory⟩ (partitionNumbers config) frames ∧
      ∀ p ∈ topic.partitions, p.handle.isSome = config.openFlags.contains .append := by
  obtain ⟨here, there, hroot, hthere, hplaces⟩ := h.exists_places hname
  have hstored : Stored disk ⟨here, name⟩ (partitionNumbers config)
      fun number => encodeAll (frames number) ++ leftover number := by
    refine .there hthere fun number hnumber => ?_
    obtain ⟨-, file, hentry, hcontent⟩ := hplaces number (mem_partitionNumbers.1 hnumber)
    exact Or.inl ⟨file, hentry, hcontent⟩
  have hframes : ∀ number ∈ partitionNumbers config, ∀ frame ∈ frames number,
      IsCommit config.maxEntryBytes frame :=
    fun number hnumber => h.isCommit number (mem_partitionNumbers.1 hnumber)
  have hleft : ∀ number ∈ partitionNumbers config,
      Leftover config.maxEntryBytes (leftover number) :=
    fun number hnumber => h.isLeftover number (mem_partitionNumbers.1 hnumber)
  replace hrepair : ∀ number ∈ partitionNumbers config, leftover number = [] ∨
      config.repairTornTail = true ∧ config.openFlags.contains .append = true :=
    fun number hnumber => hrepair number (mem_partitionNumbers.1 hnumber)
  have hfiles : ∀ number ∈ partitionNumbers config, ∃ file,
      disk.resolve ((root.child name).child (fileName number)) = .ok (.file file) := by
    intro number hnumber
    obtain ⟨file, hfile, -⟩ := h.files number (mem_partitionNumbers.1 hnumber)
    exact ⟨file, hfile⟩
  obtain ⟨topic, after, hrun⟩ := recover_of_files hroot h.sound h.reliable hstored hframes hleft
    hrepair hname h.directory hfiles
  obtain ⟨result, last, hagain, hrecovered⟩ := recover_cases hroot h.sound h.reliable hstored
    hframes hleft hrepair
  rw [hrun] at hagain
  obtain ⟨rfl, rfl⟩ := Prod.mk.inj hagain
  obtain ⟨-, hmax, -, -, directory, hdirectory, hholds, hhandle⟩ := hrecovered.opened topic rfl
  obtain rfl : there = directory := by
    rw [hrecovered.keeps.entryAt?_some _ _ hthere] at hdirectory
    exact Disk.Entry.directory.inj (Option.some.inj hdirectory)
  refine ⟨topic, after, there, hrun, hmax, hrecovered.keeps.mono fun _ h => h.elim, ?_, hholds,
    hhandle⟩
  intro number hnumber file hfile
  obtain ⟨hpath, found, hentry, -⟩ := hplaces number hnumber
  rw [Disk.resolve_of_names hpath, Disk.lookup_of_short (short_fileName number), hentry] at hfile
  rw [hentry, Except.ok.inj hfile]

/-- What a topic holds is what is left of it on the disk, with nothing behind the whole frames. -/
theorem Crashed.of_holds (h : Crashed config root name frames leftover disk) {after : Disk}
    {kept : Place → Prop} (hkeeps : Keeps disk after kept) {directory : Nat}
    (hhome : IsHome config root name disk directory) {topic : Topic} {later : UInt32 → List Frame}
    (hholds : topic.Holds after ⟨root.child name, directory⟩ (partitionNumbers config) later)
    (hlater : ∀ number, number < config.partitions → ∀ frame ∈ later number,
      IsCommit config.maxEntryBytes frame) :
    Crashed config root name later (fun _ => []) after where
  sound := hkeeps.sound
  reliable := hkeeps.reliable
  directory := by
    obtain ⟨found, hresolve⟩ := Disk.exists_of_isDirectory h.directory
    unfold Disk.isDirectory
    rw [hkeeps.resolve h.sound hresolve]
  files number hnumber := by
    obtain ⟨file, hfile, -⟩ := h.files number hnumber
    obtain ⟨p, -, -, hp⟩ := hholds.exists_partition hnumber
    refine ⟨file, hkeeps.resolve h.sound hfile, ?_⟩
    rw [List.append_nil]
    exact hp.stores.content (hkeeps.entryAt?_some _ _ (hhome number hnumber file hfile))
  isCommit := hlater
  isLeftover _ _ := .zeros 0

/-- Where a crash has left nothing behind the whole frames, a file reads as these. -/
theorem Crashed.read (h : Crashed config root name frames (fun _ => []) disk)
    (hnumber : number < config.partitions) :
    disk.read (filePath root name number) = .ok (encodeAll (frames number)) := by
  obtain ⟨file, hfile, hcontent⟩ := h.files number hnumber
  rw [List.append_nil] at hcontent
  unfold Disk.read
  rw [hfile]
  exact congrArg Except.ok hcontent

/-- A disk on which a crash has left these bytes of a topic with one partition. -/
theorem exists_crashed {frames : List Frame} {leftover : Bytes}
    (hlength : (encodeAll frames ++ leftover).length ≤ Disk.maxFileLength)
    (hframes : ∀ frame ∈ frames, IsCommit 4194304 frame) (hleft : Leftover 4194304 leftover) :
    ∃ disk, Crashed {} ⟨["", ""]⟩ "t" (fun _ => frames) (fun _ => leftover) disk := by
  obtain ⟨disk, hsound, hreliable, hdirectory, file, hfile, hcontent⟩ :=
    exists_disk_of_content (encodeAll frames ++ leftover) hlength
  refine ⟨disk, hsound, hreliable, hdirectory, ?_, fun _ _ => hframes, fun _ _ => hleft⟩
  intro number hnumber
  obtain rfl : number = 0 := UInt32.lt_one_iff.1 hnumber
  exact ⟨file, hfile, hcontent⟩

theorem Holds.length_le {topic : Topic} {folder : Folder}
    (h : topic.Holds disk folder (partitionNumbers config) frames) (hdisk : disk.Sound)
    (hnumber : number < config.partitions) :
    (encodeAll (frames number)).length ≤ Disk.maxFileLength := by
  obtain ⟨p, -, -, hholds⟩ := h.exists_partition hnumber
  exact hholds.stores.length_le hdisk

/-- An offset in a file is an offset in a revision. -/
theorem toNat_ofNat_entryCount {frames : List Frame}
    (h : (encodeAll frames).length ≤ Disk.maxFileLength) :
    (UInt64.ofNat (entryCount frames)).toNat = entryCount frames := by
  have hcount := Partition.entryCount_le_length frames
  have hlimit : Disk.maxFileLength < 2 ^ 64 := by decide
  rw [UInt64.toNat_ofNat']
  exact Nat.mod_eq_of_lt (by omega)

theorem partitionNumbers_congr {other : Config} (h : other.partitions = config.partitions) :
    partitionNumbers other = partitionNumbers config := by
  unfold partitionNumbers
  rw [h]

/-- What is left of a topic is so for all settings with the same partitions and the same limit. -/
theorem Crashed.congr {other : Config} (h : Crashed config root name frames leftover disk)
    (hpartitions : other.partitions = config.partitions)
    (hmax : other.maxEntryBytes = config.maxEntryBytes) :
    Crashed other root name frames leftover disk := by
  refine ⟨h.sound, h.reliable, h.directory, ?_, ?_, ?_⟩
  · rw [hpartitions]
    exact h.files
  · rw [hpartitions, hmax]
    exact h.isCommit
  · rw [hpartitions, hmax]
    exact h.isLeftover

/-- A topic gives back the commits of its frames. -/
theorem read_of_holds {topic : Topic} {folder : Folder}
    (h : topic.Holds disk folder (partitionNumbers config) frames)
    (hnumber : number < config.partitions)
    (hframes : ∀ frame ∈ frames number, IsCommit topic.maxEntryBytes frame) (count : Nat) :
    topic.read disk (.origin number) count
      = .ok ((commitsFrom number 0 (frames number)).take count) := by
  obtain ⟨p, hp, rfl, hholds⟩ := h.exists_partition hnumber
  have hstart : (Revision.origin p.number).offset.toNat = entryCount [] := rfl
  have hread := Partition.read_of_holds hholds hframes topic.maxMapBytes hstart count
  unfold read Revision.origin partition
  rw [hp]
  exact hread

/-- One partition has one more commit. -/
theorem isCommit_of_append {commit : RawCommit} {maxField : Nat} {count : UInt32}
    (hframes : ∀ number, number < count → ∀ frame ∈ frames number, IsCommit maxField frame)
    (hcommit : IsCommit maxField commit.frame) :
    ∀ number, number < count → ∀ frame ∈ (if number = commit.partition then
      frames number ++ [commit.frame] else frames number), IsCommit maxField frame := by
  intro number hnumber frame hframe
  split at hframe
  · rcases List.mem_append.1 hframe with hframe | hframe
    · exact hframes number hnumber frame hframe
    · obtain rfl := List.mem_singleton.1 hframe
      exact hcommit
  · exact hframes number hnumber frame hframe

theorem commitsFrom_of_append {commit : RawCommit}
    (hplace : commit
      = commitAt commit.partition (entryCount (frames commit.partition)) commit.frame)
    (number : UInt32) :
    commitsFrom number 0 (if number = commit.partition then frames number ++ [commit.frame]
        else frames number)
      = commitsFrom number 0 (frames number)
        ++ if number = commit.partition then [commit] else [] := by
  by_cases hnumber : number = commit.partition
  · subst hnumber
    rw [if_pos rfl, if_pos rfl, Partition.commitsFrom_append, Nat.zero_add, commitsFrom,
      ← hplace, commitsFrom]
  · rw [if_neg hnumber, if_neg hnumber, List.append_nil]

/-- Opening a topic again after a commit gives back all commits, and that one behind them. -/
theorem reopen_of_append {commit : RawCommit}
    (h : Crashed config root name (fun number => if number = commit.partition then
      frames number ++ [commit.frame] else frames number) (fun _ => []) disk)
    (hname : isValidName name = true)
    (hplace : commit
      = commitAt commit.partition (entryCount (frames commit.partition)) commit.frame)
    {again : Config} (hpartitions : again.partitions = config.partitions)
    (hagain : again.maxEntryBytes = config.maxEntryBytes) :
    ∃ reopened last, recover again root name disk = (.ok reopened, last) ∧
      ∀ number, number < config.partitions → ∀ count,
        reopened.read last (.origin number) count
          = .ok ((commitsFrom number 0 (frames number)
              ++ if number = commit.partition then [commit] else []).take count) := by
  obtain ⟨reopened, last, _, hrecover, hsame, -, -, hholds, -⟩ :=
    recover_of_crashed (h.congr hpartitions hagain) hname fun _ _ => Or.inl rfl
  refine ⟨reopened, last, hrecover, ?_⟩
  intro number hnumber count
  rw [read_of_holds hholds (by rw [hpartitions]; exact hnumber)
    (by rw [hsame, hagain]; exact h.isCommit number hnumber), commitsFrom_of_append hplace number]

/-! ## The whole story -/

/-- **After a crash a log has exactly its whole commits, and goes on from there.** A scan of whole
frames with a leftover behind them finds the frames, each in its place, and is torn if and only if
something is left over. Opening the topic cuts that off, and what is appended next follows the
commits from before. -/
theorem crash_recovery {config : Config} (hvalid : config.isValid = true) :
    (∀ (maxWindow : Nat) (frames : List Frame) (leftover : Bytes),
      (∀ frame ∈ frames, IsCommit config.maxEntryBytes frame) →
      Leftover config.maxEntryBytes leftover →
      ∃ found, scan config.maxEntryBytes maxWindow (encodeAll frames ++ leftover) = .ok found ∧
        found.frames.length = frames.length ∧
        (∀ (k : Nat) (frame : Frame), frames[k]? = some frame →
          found.frames[k]? = some ⟨entryCount (frames.take k), (encodeAll (frames.take k)).length,
            frame.encode.length, frame.entries.length⟩) ∧
        found.validBytes = (encodeAll frames).length ∧ found.entries = entryCount frames ∧
        (found.torn.isSome ↔ leftover ≠ [])) ∧
    ∀ (root : Path) (name : String) (frames : UInt32 → List Frame) (leftover : UInt32 → Bytes)
      (env : Env),
      isValidName name = true → config.repairTornTail = true →
      config.openFlags.contains .append = true →
      Crashed config root name frames leftover env.disk →
      ∃ topic disk, recover config root name env.disk = (.ok topic, disk) ∧
        (∀ number, number < config.partitions →
          disk.read (filePath root name number) = .ok (encodeAll (frames number)) ∧
          (topic.tails.get number).offset.toNat = entryCount (frames number)) ∧
        ∀ attempt : RawAttempt, attempt.expected.partition < config.partitions →
          attempt.expected = topic.tails.get attempt.expected.partition →
          attempt.entries ≠ [] → attempt.largest ≤ config.maxEntryBytes →
          HasRoom (frames attempt.expected.partition) attempt { env with disk } →
          ∃ commit appended later,
            topic.append attempt { env with disk } = (.ok (.committed commit), appended, later) ∧
            commit.key = attempt.key ∧ commit.entries = attempt.entries ∧
            commit.expected = attempt.expected ∧
            ∀ again : Config, again.partitions = config.partitions →
              again.maxEntryBytes = config.maxEntryBytes →
              ∃ reopened last, recover again root name later.disk = (.ok reopened, last) ∧
                ∀ number, number < config.partitions → ∀ count,
                  reopened.read last (.origin number) count
                    = .ok ((commitsFrom number 0 (frames number)
                        ++ if number = attempt.expected.partition then [commit] else []).take
                          count) := by
  constructor
  · intro maxWindow frames leftover hframes hleft
    obtain ⟨torn, hscan, htorn⟩ := Partition.scan_of_leftover hframes hleft maxWindow
    refine ⟨_, hscan, ?_, ?_, rfl, rfl, htorn⟩
    · unfold Partition.locations
      rw [Partition.length_locate, List.length_map]
    · intro k frame hframe
      rw [Partition.getElem?_locations, hframe, Option.map_some]
  · intro root name frames leftover env hname hcuts happend hcrashed
    obtain ⟨topic, disk, directory, hrun, hmax, hkeeps, hhome, hholds, hhandle⟩ :=
      recover_of_crashed hcrashed hname fun _ _ => Or.inr ⟨hcuts, happend⟩
    -- after the repair the files are as after a crash that has left nothing behind
    have hclean := hcrashed.of_holds hkeeps hhome hholds hcrashed.isCommit
    refine ⟨topic, disk, hrun, ?_, ?_⟩
    · intro number hnumber
      refine ⟨hclean.read hnumber, ?_⟩
      rw [hholds.get_tails_of_lt hnumber]
      exact toNat_ofNat_entryCount (hholds.length_le hclean.sound hnumber)
    · intro attempt hlt hexpected hentries hlargest hroom
      have hlimit := le_maxFieldLength_of_isValid hvalid
      rw [← hmax] at hlimit
      have hrefusal : topic.refusal? attempt = none := by
        rw [refusal?_eq_none, hmax]
        exact ⟨hentries, hlargest⟩
      have hopen : ∀ p ∈ topic.partitions, p.handle.isSome = true := by
        intro p hp
        rw [hhandle p hp, happend]
      obtain ⟨commit, appended, later, hcommitted⟩ := append_of_room { env with disk } hholds
        hclean.sound hclean.reliable attempt hlt hexpected hrefusal hopen hroom
      have hcases := append_cases { env with disk } hholds hlimit hclean.sound hclean.reliable
        attempt hcommitted
      cases hcases with
      | committed _ hattempt _ hplace hcommit _ hkept _ happended =>
        subst hattempt
        refine ⟨_, appended, later, hcommitted, rfl, rfl, rfl, ?_⟩
        intro again hpartitions hagain
        have hlater := hcrashed.of_holds (hkeeps.trans (hkept.mono fun _ h => h.elim)) hhome
          happended (isCommit_of_append hcrashed.isCommit (hmax ▸ hcommit))
        exact reopen_of_append hlater hname hplace hpartitions hagain
      | refused hnone => simp [Except.toOption, Outcome.commit?] at hnone

/-- A file of one commit of one entry, and of the first ten bytes of a second commit. -/
theorem crash_recovery_of_torn_frame :
    ∃ disk : Disk, Crashed {} ⟨["", ""]⟩ "t" (fun _ => [⟨⟨1, 2⟩, 3, [107], [[118]]⟩])
        (fun _ => (Frame.encode ⟨⟨4, 5⟩, 6, [107], [[119]]⟩).take 10) disk ∧
      ∃ topic after, recover {} ⟨["", ""]⟩ "t" disk = (.ok topic, after) ∧
        after.read (filePath ⟨["", ""]⟩ "t" 0) = .ok (encodeAll [⟨⟨1, 2⟩, 3, [107], [[118]]⟩]) ∧
        (topic.tails.get 0).offset.toNat = 1 := by
  have htorn : IsCommit 4194304 ⟨⟨4, 5⟩, 6, [107], [[119]]⟩ := by decide
  have hvalid : ({} : Config).isValid = true := by decide
  obtain ⟨disk, hcrashed⟩ : ∃ disk, Crashed {} ⟨["", ""]⟩ "t"
      (fun _ => [⟨⟨1, 2⟩, 3, [107], [[118]]⟩])
      (fun _ => (Frame.encode ⟨⟨4, 5⟩, 6, [107], [[119]]⟩).take 10) disk :=
    exists_crashed (by decide) (by decide) (.cutShort htorn (by decide))
  obtain ⟨topic, after, hrun, hfiles, -⟩ := (crash_recovery hvalid).2 _ _ _ _
    { disk } (by decide) rfl (by decide) hcrashed
  obtain ⟨hread, htail⟩ := hfiles 0 (by decide)
  exact ⟨_, hcrashed, topic, after, hrun, hread, htail⟩

end CommitLog.Topic
