import CommitLog.Proofs.Disk.Faults
import CommitLog.Proofs.Partition.Append
import CommitLog.Proofs.Reading.Machine

/-!
# What the writer leaves to see

Whatever step the writer takes, the frames in front of the tail are whole in the file, and in the
index at their places: the bytes of a frame land behind them, and are cut off behind them; the index
has at most one more frame, which is behind the tail; and the tail moves on last. `Kept` says how the
file, the index and the tail belong together for every place that a frame can have come to, and
`Kept.step` that every step keeps it. The frames that are committed only become more.

A reader needs much less. `Shows` is what is left for it.
-/

namespace CommitLog.Reading

open CommitLog.Disk (Alters Place maxFileLength)
open CommitLog.Frame (IsCommit)
open CommitLog.Partition (Location commitOf commitsFrom_append encodeAll encodeAll_append
  encodeAll_cons encodeAll_nil entryCount entryCount_append entryCount_cons entryCount_nil
  locations locations_append)

variable {maxField maxWindow file : Nat} {durable : Bool} {scene next : Scene} {p : Partition}
  {disk after : Disk} {frames : List Frame} {writing : Writing}

/-! ## Frames on their way -/

/-- The frame is to lie behind the others, with nothing between. -/
structure Writing.Fits (writing : Writing) (maxField file : Nat) (number : UInt32)
    (frames : List Frame) : Prop where
  handle : writing.handle = .file file
  isCommit : IsCommit maxField writing.frame
  loc : writing.loc = ⟨entryCount frames, (encodeAll frames).length, writing.frame.encode.length,
    writing.frame.entries.length⟩
  expected : writing.attempt.expected = ⟨number, UInt64.ofNat (entryCount frames)⟩

/-- What the index, the place where the next frame is to begin, and the file hold. -/
structure Tells (p : Partition) (disk : Disk) (file : Nat) (index filled : List Frame)
    (left : Bytes) : Prop where
  index : p.frames = locations index
  tailBytes : p.tailBytes = (encodeAll filled).length
  content : disk.content file = left

/-- How they belong together when a frame has come this far. -/
def Progress.Tells (frame : Frame) (p : Partition) (disk : Disk) (file : Nat)
    (frames : List Frame) : Progress → Prop
  | landing landed => landed ≤ frame.encode.length ∧
      Reading.Tells p disk file frames frames (encodeAll frames ++ frame.encode.take landed) ∧
      (disk.content file).length ≤ maxFileLength
  | broken => ∃ left, Reading.Tells p disk file frames frames (encodeAll frames ++ left)
  | inserted =>
      Reading.Tells p disk file (frames ++ [frame]) frames (encodeAll (frames ++ [frame])) ∧
      (disk.content file).length ≤ maxFileLength
  | counted =>
      Reading.Tells p disk file (frames ++ [frame]) (frames ++ [frame])
        (encodeAll (frames ++ [frame])) ∧
      (disk.content file).length ≤ maxFileLength

/-- How they belong together, whether a frame is on its way or not. -/
inductive Together (maxField file : Nat) (p : Partition) (disk : Disk) (frames : List Frame) :
    Option Writing → Prop
  | rests (tells : Tells p disk file frames frames (encodeAll frames)) :
      Together maxField file p disk frames none
  | writes {writing : Writing} (fits : writing.Fits maxField file p.number frames)
      (tells : writing.progress.Tells writing.frame p disk file frames) :
      Together maxField file p disk frames (some writing)

/-- The file, the index and the tail of a partition tell of the same frames, but for one that is on
its way. -/
structure Kept (maxField file : Nat) (scene : Scene) (frames : List Frame) : Prop where
  resolve : scene.disk.resolve scene.p.path = .ok (.file file)
  size : file < scene.disk.contents.size
  handle : scene.p.handle = some (.file file)
  isCommit : ∀ frame ∈ frames, IsCommit maxField frame
  commits : scene.commits = commitsFrom scene.p.number 0 frames
  tailOffset : scene.p.tailOffset = entryCount frames
  room : (encodeAll frames).length ≤ maxFileLength
  together : Together maxField file scene.p scene.disk frames scene.writing

/-- What there is for a reader to see: the frames in front of the tail are in the index, maybe with
more behind them, and in the file, maybe with something behind them. -/
structure Shows (maxField file : Nat) (p : Partition) (disk : Disk) (frames : List Frame) :
    Prop where
  resolve : disk.resolve p.path = .ok (.file file)
  isCommit : ∀ frame ∈ frames, IsCommit maxField frame
  tailOffset : p.tailOffset = entryCount frames
  index : ∃ more, p.frames = locations (frames ++ more)
  content : ∃ left, disk.content file = encodeAll frames ++ left

theorem Kept.tells (h : Kept maxField file scene frames) (hunderway : scene.writing = some writing) :
    writing.Fits maxField file scene.p.number frames ∧
      writing.progress.Tells writing.frame scene.p scene.disk file frames := by
  have htogether := h.together
  rw [hunderway] at htogether
  cases htogether with
  | writes hfits htells => exact ⟨hfits, htells⟩

theorem Kept.rests (h : Kept maxField file scene frames) (hidle : scene.writing = none) :
    Tells scene.p scene.disk file frames frames (encodeAll frames) := by
  have htogether := h.together
  rw [hidle] at htogether
  cases htogether with
  | rests htells => exact htells

theorem Kept.shows (h : Kept maxField file scene frames) :
    Shows maxField file scene.p scene.disk frames := by
  obtain ⟨more, left, hindex, hcontent⟩ : ∃ more left,
      scene.p.frames = locations (frames ++ more) ∧
        scene.disk.content file = encodeAll frames ++ left := by
    cases hwriting : scene.writing with
    | none =>
      have htells := h.rests hwriting
      exact ⟨[], [], by rw [List.append_nil, htells.index], by rw [List.append_nil, htells.content]⟩
    | some writing =>
      have htells := (h.tells hwriting).2
      cases hprogress : writing.progress with
      | landing landed =>
        rw [hprogress] at htells
        exact ⟨[], _, by rw [List.append_nil, htells.2.1.index], htells.2.1.content⟩
      | broken =>
        rw [hprogress] at htells
        obtain ⟨left, htells⟩ := htells
        exact ⟨[], _, by rw [List.append_nil, htells.index], htells.content⟩
      | inserted =>
        rw [hprogress] at htells
        exact ⟨_, _, htells.1.index, htells.1.content.trans (encodeAll_append ..)⟩
      | counted =>
        rw [hprogress] at htells
        exact ⟨_, _, htells.1.index, htells.1.content.trans (encodeAll_append ..)⟩
  exact ⟨h.resolve, h.isCommit, h.tailOffset, ⟨more, hindex⟩, ⟨left, hcontent⟩⟩

/-! ## Steps of the writer -/

theorem Writing.landed_of_rest {landed : Nat} (hle : landed ≤ writing.frame.encode.length)
    (hrest : writing.rest landed = []) : landed = writing.frame.encode.length :=
  Nat.le_antisymm hle (List.drop_eq_nil_iff.1 hrest)

namespace Writing.Fits

variable {number : UInt32} (h : writing.Fits maxField file number frames)

include h

theorem reach (progress : Progress) : (writing.reach progress).Fits maxField file number frames :=
  ⟨h.handle, h.isCommit, h.loc, h.expected⟩

theorem force : writing.force.Fits maxField file number frames :=
  ⟨h.handle, h.isCommit, h.loc, h.expected⟩

/-- What is returned for a frame is the commit that is read back at its place. -/
theorem commitOf_eq : commitOf writing.attempt writing.id writing.now
    = commitAt number (entryCount frames) writing.frame := by
  rw [commitOf, h.expected]
  rfl

end Writing.Fits

namespace Kept

variable (h : Kept maxField file scene frames)

include h

/-- The frame has come to another place, or has been given up, and the file has changed for it. -/
theorem write {bytes : Bytes} (halters : Alters scene.disk after file bytes)
    {underway : Option Writing} (htogether : Together maxField file scene.p after frames underway) :
    Kept maxField file { scene with disk := after, writing := underway } frames where
  resolve := by
    rw [Disk.resolve_congr halters.directories]
    exact h.resolve
  size := by
    rw [halters.size]
    exact h.size
  handle := h.handle
  isCommit := h.isCommit
  commits := h.commits
  tailOffset := h.tailOffset
  room := h.room
  together := htogether

/-- An attempt has become a frame, and nothing of it has landed. -/
theorem begin {attempt : RawAttempt} {id : Identifier} {now : UInt64} {handle : Disk.Handle}
    (hidle : scene.writing = none) (hopen : scene.p.handle = some handle)
    (hexpected : attempt.expected = scene.p.tail)
    (hcommit : (Partition.frameOf attempt id now).IsCommit maxField) :
    Kept maxField file (scene.begin durable attempt id now handle) frames := by
  have htells := h.rests hidle
  have hhandle : handle = .file file := Option.some.inj (hopen.symm.trans h.handle)
  refine ⟨h.resolve, h.size, h.handle, h.isCommit, h.commits, h.tailOffset, h.room,
    .writes ⟨hhandle, hcommit, ?_, ?_⟩ ⟨Nat.zero_le _, ?_, ?_⟩⟩
  · show Location.mk _ _ _ _ = _
    rw [h.tailOffset, htells.tailBytes]
    rfl
  · rw [← h.tailOffset]
    exact hexpected
  · rw [List.take_zero, List.append_nil]
    exact ⟨htells.index, htells.tailBytes, htells.content⟩
  · show (scene.disk.content file).length ≤ _
    rw [htells.content]
    exact h.room

/-- Some more bytes of the frame land. -/
theorem land {landed count : Nat} (hunderway : scene.writing = some writing)
    (hprogress : writing.progress = .landing landed)
    (hcount : count ≤ (writing.rest landed).length)
    (hrun : scene.disk.append writing.handle ((writing.rest landed).take count)
      = (.ok (), after)) :
    Kept maxField file (scene.write after (writing.reach (.landing (landed + count)))) frames := by
  obtain ⟨hfits, htells⟩ := h.tells hunderway
  rw [hprogress] at htells
  obtain ⟨hle, htells, -⟩ := htells
  rw [hfits.handle] at hrun
  obtain ⟨taken, halters, hall⟩ := Disk.alters_append h.size hrun
  obtain ⟨hwhole, hroom⟩ := hall rfl
  rw [hwhole] at halters
  rw [← List.length_append, ← halters.content] at hroom
  refine h.write halters (.writes (hfits.reach _)
    ⟨?_, ⟨htells.index, htells.tailBytes, ?_⟩, hroom⟩)
  · have hrest : (writing.rest landed).length = writing.frame.encode.length - landed :=
      List.length_drop
    show landed + count ≤ writing.frame.encode.length
    omega
  · show _ = encodeAll frames ++ writing.frame.encode.take (landed + count)
    rw [halters.content, htells.content, List.append_assoc, Writing.rest, ← List.take_add]

/-- Writing some more bytes fails, and some of them may have landed. -/
theorem failToLand {landed count : Nat} {failure : Disk.Failure}
    (hunderway : scene.writing = some writing) (hprogress : writing.progress = .landing landed)
    (hrun : scene.disk.append writing.handle ((writing.rest landed).take count)
      = (.error failure, after)) :
    Kept maxField file (scene.write after (writing.reach .broken)) frames := by
  obtain ⟨hfits, htells⟩ := h.tells hunderway
  rw [hprogress] at htells
  obtain ⟨-, htells, -⟩ := htells
  rw [hfits.handle] at hrun
  obtain ⟨taken, halters, -⟩ := Disk.alters_append h.size hrun
  have hcontent := halters.content
  rw [htells.content, List.append_assoc] at hcontent
  exact h.write halters (.writes (hfits.reach _)
    ⟨_, htells.index, htells.tailBytes, hcontent⟩)

/-- The frame is forced to stable storage. -/
theorem sync {landed : Nat} (hunderway : scene.writing = some writing)
    (hprogress : writing.progress = .landing landed)
    (hrun : scene.disk.sync writing.handle = (.ok (), after)) :
    Kept maxField file (scene.write after writing.force) frames := by
  obtain ⟨hfits, htells⟩ := h.tells hunderway
  rw [hprogress] at htells
  obtain ⟨hle, htells, hroom⟩ := htells
  rw [hfits.handle] at hrun
  have halters := Disk.alters_sync hrun
  refine h.write halters (.writes hfits.force ?_)
  show writing.progress.Tells writing.frame scene.p after file frames
  rw [hprogress]
  refine ⟨hle, ⟨htells.index, htells.tailBytes, halters.content.trans htells.content⟩, ?_⟩
  rw [halters.content]
  exact hroom

/-- Forcing the frame to stable storage fails. -/
theorem failToSync {landed : Nat} {failure : Disk.Failure}
    (hunderway : scene.writing = some writing) (hprogress : writing.progress = .landing landed)
    (hrun : scene.disk.sync writing.handle = (.error failure, after)) :
    Kept maxField file (scene.write after (writing.reach .broken)) frames := by
  obtain ⟨hfits, htells⟩ := h.tells hunderway
  rw [hprogress] at htells
  obtain ⟨-, htells, -⟩ := htells
  rw [hfits.handle] at hrun
  have halters := Disk.alters_sync hrun
  exact h.write halters (.writes (hfits.reach _)
    ⟨_, htells.index, htells.tailBytes, halters.content.trans htells.content⟩)

/-- What has landed of a frame is cut off. -/
theorem cut (hunderway : scene.writing = some writing) (hprogress : writing.progress = .broken)
    (hrun : scene.disk.setLength writing.handle writing.loc.pos = (.ok (), after)) :
    Kept maxField file (scene.cut after) frames := by
  obtain ⟨hfits, htells⟩ := h.tells hunderway
  rw [hprogress] at htells
  obtain ⟨left, htells⟩ := htells
  rw [hfits.handle, hfits.loc] at hrun
  have hlength : (encodeAll frames).length ≤ (scene.disk.content file).length := by
    rw [htells.content, List.length_append]
    exact Nat.le_add_right ..
  rcases Disk.alters_setLength h.size hlength hrun with ⟨-, halters⟩ | ⟨hfails, -⟩
  case inr => exact absurd rfl hfails
  rw [htells.content, List.take_left' rfl] at halters
  exact h.write halters (.rests ⟨htells.index, htells.tailBytes, halters.content⟩)

/-- A frame that has landed is inserted in the index. -/
theorem insert {landed : Nat} (hunderway : scene.writing = some writing)
    (hprogress : writing.progress = .landing landed) (hwhole : writing.rest landed = []) :
    Kept maxField file (scene.insert writing) frames := by
  obtain ⟨hfits, htells⟩ := h.tells hunderway
  rw [hprogress] at htells
  obtain ⟨hle, htells, hroom⟩ := htells
  have hlanded := Writing.landed_of_rest hle hwhole
  refine ⟨h.resolve, h.size, h.handle, h.isCommit, h.commits, h.tailOffset, h.room,
    .writes (hfits.reach _)
      ⟨⟨?_, htells.tailBytes, ?_⟩, hroom⟩⟩
  · show scene.p.frames ++ [writing.loc] = _
    rw [htells.index, hfits.loc, locations_append]
    rfl
  · show scene.disk.content file = encodeAll (frames ++ [writing.frame])
    rw [htells.content, hlanded, List.take_length, encodeAll_append, encodeAll_cons, encodeAll_nil,
      List.append_nil]

/-- The next frame is to begin behind one that is in the index. -/
theorem advance (hunderway : scene.writing = some writing)
    (hprogress : writing.progress = .inserted) :
    Kept maxField file (scene.advance writing) frames := by
  obtain ⟨hfits, htells⟩ := h.tells hunderway
  rw [hprogress] at htells
  obtain ⟨htells, hroom⟩ := htells
  refine ⟨h.resolve, h.size, h.handle, h.isCommit, h.commits, h.tailOffset, h.room,
    .writes (hfits.reach _)
      ⟨⟨htells.index, ?_, htells.content⟩, hroom⟩⟩
  show writing.loc.endPos = (encodeAll (frames ++ [writing.frame])).length
  simp only [hfits.loc, Location.endPos, encodeAll_append, encodeAll_cons, encodeAll_nil,
    List.append_nil, List.length_append]

/-- The tail moves behind the frame, which is committed. -/
theorem publish (hunderway : scene.writing = some writing)
    (hprogress : writing.progress = .counted) :
    Kept maxField file (scene.publish writing) (frames ++ [writing.frame]) := by
  obtain ⟨hfits, htells⟩ := h.tells hunderway
  rw [hprogress] at htells
  obtain ⟨htells, hroom⟩ := htells
  refine ⟨h.resolve, h.size, h.handle, ?_, ?_, ?_, ?_,
    .rests ⟨htells.index, htells.tailBytes, htells.content⟩⟩
  · intro frame hframe
    rcases List.mem_append.1 hframe with hframe | hframe
    · exact h.isCommit frame hframe
    · rw [List.mem_singleton.1 hframe]
      exact hfits.isCommit
  · show scene.commits ++ [commitOf writing.attempt writing.id writing.now] = _
    rw [h.commits, hfits.commitOf_eq, commitsFrom_append, Nat.zero_add]
    rfl
  · show writing.loc.stop = _
    simp only [hfits.loc, Location.stop, entryCount_append, entryCount_cons, entryCount_nil,
      Nat.add_zero]
  · rw [← htells.content]
    exact hroom

/-- The reader leaves alone what it looks at. -/
theorem look : Kept maxField file (scene.look maxField maxWindow) frames :=
  ⟨h.resolve, h.size, h.handle, h.isCommit, h.commits, h.tailOffset, h.room, h.together⟩

/-- **Every step keeps file, index and tail together**, and commits only become more. -/
theorem step (hstep : Step maxField maxWindow durable scene next) :
    ∃ later, Kept maxField file next later ∧ frames <+: later := by
  cases hstep with
  | begins hidle hopen hexpected hcommit =>
    exact ⟨frames, h.begin hidle hopen hexpected hcommit, List.prefix_rfl⟩
  | lands hunderway hprogress hcount hrun =>
    exact ⟨frames, h.land hunderway hprogress hcount hrun, List.prefix_rfl⟩
  | failsToLand hunderway hprogress hrun =>
    exact ⟨frames, h.failToLand hunderway hprogress hrun, List.prefix_rfl⟩
  | syncs hunderway hprogress _ hrun =>
    exact ⟨frames, h.sync hunderway hprogress hrun, List.prefix_rfl⟩
  | failsToSync hunderway hprogress _ hrun =>
    exact ⟨frames, h.failToSync hunderway hprogress hrun, List.prefix_rfl⟩
  | cuts hunderway hprogress hrun =>
    exact ⟨frames, h.cut hunderway hprogress hrun, List.prefix_rfl⟩
  | inserts hunderway hprogress hwhole _ =>
    exact ⟨frames, h.insert hunderway hprogress hwhole, List.prefix_rfl⟩
  | advances hunderway hprogress => exact ⟨frames, h.advance hunderway hprogress, List.prefix_rfl⟩
  | publishes hunderway hprogress =>
    exact ⟨_, h.publish hunderway hprogress, List.prefix_append ..⟩
  | looks _ => exact ⟨frames, h.look, List.prefix_rfl⟩

theorem leads (hleads : Leads maxField maxWindow durable scene next) :
    ∃ later, Kept maxField file next later ∧ frames <+: later := by
  induction hleads with
  | refl => exact ⟨frames, h, List.prefix_rfl⟩
  | tail _ hstep ih =>
    obtain ⟨mid, hmid, hfront⟩ := ih
    obtain ⟨later, hlater, hmore⟩ := hmid.step hstep
    exact ⟨later, hlater, hfront.trans hmore⟩

end Kept

/-! ## Where it begins -/

/-- A partition that holds frames, with its writer at rest. -/
def Scene.ofPartition (p : Partition) (disk : Disk) (frames : List Frame) : Scene where
  p := p
  disk := disk
  commits := commitsFrom p.number 0 frames

theorem kept_of_holds {place : Place} (h : p.Holds disk place frames) (hsound : disk.Sound)
    (hhandle : p.handle.isSome) (hframes : ∀ frame ∈ frames, IsCommit maxField frame) :
    ∃ file, Kept maxField file (.ofPartition p disk frames) frames := by
  obtain ⟨handle, hhandle⟩ := Option.isSome_iff_exists.1 hhandle
  obtain ⟨file, rfl, -⟩ := h.handle handle hhandle
  obtain ⟨hentry, hcontent⟩ := h.content hhandle
  refine ⟨file, ?_, hsound.file_lt _ _ hentry, hhandle, hframes, rfl, h.tailOffset,
    h.stores.length_le hsound, .rests ⟨h.index, h.tailBytes, hcontent⟩⟩
  show disk.resolve p.path = _
  rw [Disk.resolve_of_names h.names, Disk.lookup_of_short h.short, hentry]

end CommitLog.Reading
