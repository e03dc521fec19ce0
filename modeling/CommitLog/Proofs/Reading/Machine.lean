import CommitLog.Partition.Append
import CommitLog.Partition.Read
import CommitLog.Proofs.Frame.Measure
import Mathlib.Logic.Function.Iterate
import Mathlib.Logic.Relation

/-!
# Reading beside the writer

A partition has one writer, and whoever reads takes no lock. The writer brings a frame into the
partition step by step: its bytes land in as many pieces as the system takes them in, they are forced
to stable storage if that is asked for, and then three values change one after the other, the index,
the place where the next frame is to begin, and the tail. When writing fails, whatever has landed is
cut off again. A reader loads the tail, looks up where it is to start, collects the frames in
between, opens the file, takes its length, and decodes frame after frame from what the file holds at
that moment. Here all of these are steps of their own, and come in any order.

Run in one go, the steps of a reader are `Partition.read` (`leads_read`), and those of a frame are
`Partition.append`, whether it succeeds (`leads_append`) or not (`leads_failed_append`).
-/

namespace CommitLog.Reading

open CommitLog.Partition (Location Window frameOf commitOf)

/-! ## The writer -/

/-- How far a frame has come. -/
inductive Progress where
  /-- So many of its bytes have landed. -/
  | landing (landed : Nat)
  /-- Writing it has failed, and what has landed is to be cut off. -/
  | broken
  /-- It is in the index. -/
  | inserted
  /-- The next frame is to begin behind it. -/
  | counted

/-- A frame on its way into the partition. -/
structure Writing where
  attempt : RawAttempt
  id : Identifier
  now : UInt64
  handle : Disk.Handle
  /-- Where it is to lie. -/
  loc : Location
  progress : Progress := .landing 0
  /-- Whether it has been forced to stable storage, or need not be. -/
  forced : Bool

namespace Writing

/-- What is written. -/
def frame (writing : Writing) : Frame := frameOf writing.attempt writing.id writing.now

/-- The bytes that have not landed when so many have. -/
def rest (writing : Writing) (landed : Nat) : Bytes := writing.frame.encode.drop landed

/-- The frame when it has come this far. -/
def reach (writing : Writing) (progress : Progress) : Writing := { writing with progress }

/-- The frame when it has been forced to stable storage. -/
def force (writing : Writing) : Writing := { writing with forced := true }

end Writing

/-! ## The reader -/

/-- What a reader asks for. -/
structure Request where
  start : Revision
  count : Nat

/-- What a reader does next. -/
inductive Stage where
  | idle
  /-- Loads the tail. -/
  | called
  /-- Compares with the tail, and looks up where it is to start. -/
  | loaded (tail : Nat)
  /-- Collects the frames between the start and the tail. -/
  | found (tail : Nat)
  /-- Opens the file. -/
  | collected (locs : List Location)
  /-- Takes the length of the file. -/
  | opened (entry : Disk.Entry) (locs : List Location)
  /-- Goes on to the next window, with the commits that it has read. -/
  | reading (entry : Disk.Entry) (length : Nat) (windows : List Window) (commits : List RawCommit)
  /-- Decodes the next of the frames that are left of a window. -/
  | decoding (entry : Disk.Entry) (length : Nat) (window : Window) (left : List Location)
      (windows : List Window) (commits : List RawCommit)
  | ended (answer : Except LogError (List RawCommit))

/-- What a path leads to, if it can be read from. -/
def openRead (disk : Disk) (path : Path) : Except Disk.Failure Disk.Entry :=
  match disk.resolve path with
  | .error failure => .error failure
  | .ok (.directory _) => .error .noSuchDevice
  | .ok entry => .ok entry

/-- The bytes of what was opened, as they are now. -/
def bytesOf (disk : Disk) : Disk.Entry → Bytes
  | .file number => disk.content number
  | _ => []

/-- The bytes that a window shows now. -/
def stretch (disk : Disk) (entry : Disk.Entry) (window : Window) : Bytes :=
  ((bytesOf disk entry).drop window.pos).take (window.endPos - window.pos)

namespace Stage

/-- Whether there is a next step. -/
def GoesOn : Stage → Prop
  | idle => False
  | ended _ => False
  | _ => True

variable (request : Request) (maxField maxWindow : Nat) (p : Partition) (disk : Disk)

/-- The next step of a reader. -/
def next : Stage → Stage
  | idle => idle
  | called => loaded p.tailOffset
  | loaded tail =>
    let known : Partition := { p with tailOffset := tail }
    let offset := request.start.offset.toNat
    if tail < offset then
      ended (.error (.invalidPosition request.start (.beyondTail known.tail.offset)))
    else if offset = tail ∨ request.count = 0 then ended (.ok [])
    else if !p.hasFrameAt offset then
      ended (.error (.invalidPosition request.start .noBoundary))
    else found tail
  | found tail =>
    let known : Partition := { p with tailOffset := tail }
    collected (known.framesFrom request.start.offset.toNat request.count)
  | collected locs =>
    match openRead disk p.path with
    | .error failure => ended (.error (.io failure p.path.display))
    | .ok entry => opened entry locs
  | opened entry locs => reading entry (bytesOf disk entry).length (Window.group maxWindow locs) []
  | reading _ _ [] commits => ended (.ok commits)
  | reading entry length (window :: later) commits =>
    if length < window.endPos then
      ended (.error (.corrupt p.path.display window.pos (.fileTooShort length window.endPos)))
    else decoding entry length window window.frames later commits
  | decoding entry length _ [] later commits => reading entry length later commits
  | decoding entry length window (loc :: left) later commits =>
    match p.readFrame maxField (stretch disk entry window) window.pos loc with
    | .error failure => ended (.error failure)
    | .ok commit => decoding entry length window left later (commits ++ [commit])
  | ended answer => ended answer

end Stage

/-! ## Both together -/

/-- A partition with its file, its writer and a reader. -/
structure Scene where
  p : Partition
  disk : Disk
  writing : Option Writing := none
  /-- Everything that was committed, in order. No step looks at this, nor at `loaded` and
  `looks`. -/
  commits : List RawCommit
  request : Request := ⟨.origin 0, 0⟩
  stage : Stage := .idle
  /-- The tail that the reader has loaded. -/
  loaded : Option Nat := none
  /-- How many steps the reader has taken. -/
  looks : Nat := 0

namespace Scene

/-- The scene when an attempt has become a frame that is to be written. -/
def begin (scene : Scene) (durable : Bool) (attempt : RawAttempt) (id : Identifier) (now : UInt64)
    (handle : Disk.Handle) : Scene :=
  { scene with
    writing := some {
      attempt, id, now, handle
      loc := ⟨scene.p.tailOffset, scene.p.tailBytes, (frameOf attempt id now).encode.length,
        attempt.size⟩
      forced := !durable } }

/-- The scene when the writer has come this far with the file and its frame. -/
def write (scene : Scene) (disk : Disk) (writing : Writing) : Scene :=
  { scene with disk, writing := some writing }

/-- The scene when what has landed of a frame has been cut off. -/
def cut (scene : Scene) (disk : Disk) : Scene := { scene with disk, writing := none }

/-- The scene when the frame is in the index. -/
def insert (scene : Scene) (writing : Writing) : Scene :=
  { scene with
    p := { scene.p with frames := scene.p.frames ++ [writing.loc] }
    writing := some (writing.reach .inserted) }

/-- The scene when the next frame is to begin behind this one. -/
def advance (scene : Scene) (writing : Writing) : Scene :=
  { scene with
    p := { scene.p with tailBytes := writing.loc.endPos }
    writing := some (writing.reach .counted) }

/-- The scene when the tail is behind the frame. -/
def publish (scene : Scene) (writing : Writing) : Scene :=
  { scene with
    p := { scene.p with tailOffset := writing.loc.stop }
    writing := none
    commits := scene.commits ++ [commitOf writing.attempt writing.id writing.now] }

/-- The scene when a read begins. -/
def call (scene : Scene) (request : Request) : Scene :=
  { scene with request, stage := .called, loaded := none, looks := 0 }

/-- The scene after the next step of the reader. -/
def look (scene : Scene) (maxField maxWindow : Nat) : Scene :=
  { scene with
    stage := scene.stage.next scene.request maxField maxWindow scene.p scene.disk
    loaded := match scene.stage with
      | .called => some scene.p.tailOffset
      | _ => scene.loaded
    looks := scene.looks + 1 }

end Scene

variable {maxField maxWindow : Nat} {durable : Bool}

/-- One step of the writer or of the reader. An attempt that does not become a frame changes
nothing, and takes no step. -/
inductive Step (maxField maxWindow : Nat) (durable : Bool) (scene : Scene) : Scene → Prop where
  /-- An attempt finds the tail where it expects it, and becomes a frame. -/
  | begins {attempt : RawAttempt} {id : Identifier} {now : UInt64} {handle : Disk.Handle}
      (idle : scene.writing = none) (isOpen : scene.p.handle = some handle)
      (expected : attempt.expected = scene.p.tail)
      (isCommit : (frameOf attempt id now).IsCommit maxField) :
      Step maxField maxWindow durable scene (scene.begin durable attempt id now handle)
  /-- Some more bytes of the frame land. -/
  | lands {writing : Writing} {landed count : Nat} {disk : Disk}
      (underway : scene.writing = some writing) (progress : writing.progress = .landing landed)
      (count_le : count ≤ (writing.rest landed).length)
      (run : scene.disk.append writing.handle ((writing.rest landed).take count) = (.ok (), disk)) :
      Step maxField maxWindow durable scene
        (scene.write disk (writing.reach (.landing (landed + count))))
  /-- Writing some more bytes fails. -/
  | failsToLand {writing : Writing} {landed count : Nat} {disk : Disk} {failure : Disk.Failure}
      (underway : scene.writing = some writing) (progress : writing.progress = .landing landed)
      (run : scene.disk.append writing.handle ((writing.rest landed).take count)
        = (.error failure, disk)) :
      Step maxField maxWindow durable scene (scene.write disk (writing.reach .broken))
  /-- The frame is forced to stable storage. -/
  | syncs {writing : Writing} {landed : Nat} {disk : Disk}
      (underway : scene.writing = some writing) (progress : writing.progress = .landing landed)
      (whole : writing.rest landed = []) (run : scene.disk.sync writing.handle = (.ok (), disk)) :
      Step maxField maxWindow durable scene (scene.write disk writing.force)
  /-- Forcing the frame to stable storage fails. -/
  | failsToSync {writing : Writing} {landed : Nat} {disk : Disk} {failure : Disk.Failure}
      (underway : scene.writing = some writing) (progress : writing.progress = .landing landed)
      (whole : writing.rest landed = [])
      (run : scene.disk.sync writing.handle = (.error failure, disk)) :
      Step maxField maxWindow durable scene (scene.write disk (writing.reach .broken))
  /-- What has landed of a frame is cut off. -/
  | cuts {writing : Writing} {disk : Disk} (underway : scene.writing = some writing)
      (progress : writing.progress = .broken)
      (run : scene.disk.setLength writing.handle writing.loc.pos = (.ok (), disk)) :
      Step maxField maxWindow durable scene (scene.cut disk)
  /-- The frame is inserted in the index. -/
  | inserts {writing : Writing} {landed : Nat} (underway : scene.writing = some writing)
      (progress : writing.progress = .landing landed) (whole : writing.rest landed = [])
      (forced : writing.forced = true) :
      Step maxField maxWindow durable scene (scene.insert writing)
  /-- The place where the next frame is to begin is stored. -/
  | advances {writing : Writing} (underway : scene.writing = some writing)
      (progress : writing.progress = .inserted) :
      Step maxField maxWindow durable scene (scene.advance writing)
  /-- The tail is stored. -/
  | publishes {writing : Writing} (underway : scene.writing = some writing)
      (progress : writing.progress = .counted) :
      Step maxField maxWindow durable scene (scene.publish writing)
  /-- The reader takes a step. -/
  | looks (goesOn : scene.stage.GoesOn) :
      Step maxField maxWindow durable scene (scene.look maxField maxWindow)

/-- One scene is followed by another. -/
abbrev Leads (maxField maxWindow : Nat) (durable : Bool) : Scene → Scene → Prop :=
  Relation.ReflTransGen (Step maxField maxWindow durable)

/-! ## A read in one go -/

theorem read_eq (disk : Disk) (path : Path) :
    disk.read path = (openRead disk path).map (bytesOf disk) := by
  unfold Disk.read openRead
  cases disk.resolve path with
  | error failure => rfl
  | ok entry => cases entry <;> rfl

section Alone

variable (maxField maxWindow : Nat) (request : Request) (p : Partition) (disk : Disk)
  (entry : Disk.Entry)

/-- The frames that are left of a window are decoded one after another. -/
theorem iterate_next_decoding (length : Nat) (window : Window) (later : List Window) :
    ∀ (left : List Location) (commits : List RawCommit), ∃ n,
      (Stage.next request maxField maxWindow p disk)^[n]
          (.decoding entry length window left later commits)
        = match left.mapM (p.readFrame maxField (stretch disk entry window) window.pos) with
          | .error failure => .ended (.error failure)
          | .ok more => .reading entry length later (commits ++ more) := by
  intro left
  induction left with
  | nil =>
    intro commits
    refine ⟨1, ?_⟩
    rw [Function.iterate_one, Stage.next, List.mapM_nil]
    simp only [pure, Except.pure, List.append_nil]
  | cons loc left ih =>
    intro commits
    cases hread : p.readFrame maxField (stretch disk entry window) window.pos loc with
    | error failure =>
      refine ⟨1, ?_⟩
      rw [Function.iterate_one, Stage.next, hread, List.mapM_cons, hread]
      rfl
    | ok commit =>
      obtain ⟨n, hn⟩ := ih (commits ++ [commit])
      refine ⟨n + 1, ?_⟩
      rw [Function.iterate_succ_apply, Stage.next, hread, hn, List.mapM_cons, hread]
      cases left.mapM (p.readFrame maxField (stretch disk entry window) window.pos) with
      | error failure => rfl
      | ok more =>
        simp only [bind, Except.bind, pure, Except.pure, List.append_assoc, List.singleton_append]

/-- The windows that are left are read one after another. -/
theorem iterate_next_reading : ∀ (windows : List Window) (commits : List RawCommit), ∃ n,
    (Stage.next request maxField maxWindow p disk)^[n]
        (.reading entry (bytesOf disk entry).length windows commits)
      = .ended ((windows.mapM (p.readWindow maxField (bytesOf disk entry))).map fun more =>
          commits ++ more.flatten) := by
  intro windows
  induction windows with
  | nil =>
    intro commits
    refine ⟨1, ?_⟩
    rw [Function.iterate_one, Stage.next, List.mapM_nil]
    simp only [pure, Except.pure, Except.map, List.flatten_nil, List.append_nil]
  | cons window later ih =>
    intro commits
    by_cases hshort : (bytesOf disk entry).length < window.endPos
    · refine ⟨1, ?_⟩
      rw [Function.iterate_one, Stage.next, if_pos hshort, List.mapM_cons, Partition.readWindow,
        if_pos hshort]
      rfl
    · obtain ⟨n, hn⟩ := iterate_next_decoding maxField maxWindow request p disk entry
        (bytesOf disk entry).length window later window.frames commits
      have hwindow : p.readWindow maxField (bytesOf disk entry) window
          = window.frames.mapM (p.readFrame maxField (stretch disk entry window) window.pos) := by
        rw [Partition.readWindow, if_neg hshort]
        rfl
      cases hmore : window.frames.mapM
          (p.readFrame maxField (stretch disk entry window) window.pos) with
      | error failure =>
        rw [hmore] at hn hwindow
        refine ⟨n + 1, ?_⟩
        rw [Function.iterate_succ_apply, Stage.next, if_neg hshort, hn, List.mapM_cons, hwindow]
        rfl
      | ok more =>
        rw [hmore] at hn hwindow
        obtain ⟨m, hm⟩ := ih (commits ++ more)
        refine ⟨m + (n + 1), ?_⟩
        rw [Function.iterate_add_apply, Function.iterate_succ_apply, Stage.next, if_neg hshort, hn,
          hm, List.mapM_cons, hwindow]
        cases later.mapM (p.readWindow maxField (bytesOf disk entry)) with
        | error failure => rfl
        | ok lists =>
          simp only [bind, Except.bind, pure, Except.pure, Except.map, List.flatten_cons,
            List.append_assoc]

/-- A reader that goes on alone comes to the answer of a read. -/
theorem iterate_next_read : ∃ n,
    (Stage.next request maxField maxWindow p disk)^[n] .called
      = .ended (p.read disk maxField maxWindow request.start request.count) := by
  unfold Partition.read
  by_cases hbeyond : p.tailOffset < request.start.offset.toNat
  · refine ⟨2, ?_⟩
    simp only [Function.iterate_succ_apply, Function.iterate_zero_apply, Stage.next, hbeyond,
      if_true]
  by_cases hnone : request.start.offset.toNat = p.tailOffset ∨ request.count = 0
  · refine ⟨2, ?_⟩
    simp only [Function.iterate_succ_apply, Function.iterate_zero_apply, Stage.next, hbeyond,
      if_false, hnone, if_true]
  cases hframe : p.hasFrameAt request.start.offset.toNat with
  | false =>
    refine ⟨2, ?_⟩
    simp only [Function.iterate_succ_apply, Function.iterate_zero_apply, Stage.next, hbeyond,
      if_false, hnone, hframe, Bool.not_false, if_true]
  | true =>
    have hcollects : (Stage.next request maxField maxWindow p disk)^[3] .called
        = .collected (p.framesFrom request.start.offset.toNat request.count) := by
      simp only [Function.iterate_succ_apply, Function.iterate_zero_apply, Stage.next, hbeyond,
        if_false, hnone, hframe, Bool.not_true, Bool.false_eq_true]
    simp only [hbeyond, hnone, hframe, if_false, Bool.not_true, Bool.false_eq_true, read_eq]
    cases hopen : openRead disk p.path with
    | error failure =>
      refine ⟨1 + 3, ?_⟩
      rw [Function.iterate_add_apply, hcollects, Function.iterate_one, Stage.next, hopen]
      simp only [Except.map]
    | ok entry =>
      obtain ⟨n, hn⟩ := iterate_next_reading maxField maxWindow request p disk entry
        (Window.group maxWindow (p.framesFrom request.start.offset.toNat request.count)) []
      refine ⟨n + (2 + 3), ?_⟩
      rw [Function.iterate_add_apply, Function.iterate_add_apply, hcollects]
      simp only [Function.iterate_succ_apply, Function.iterate_zero_apply, Stage.next, hopen]
      rw [hn]
      simp only [List.nil_append, Except.map]

end Alone

/-- As far as a reader gets alone, it gets in steps. -/
theorem leads_iterate_next (maxField maxWindow : Nat) (durable : Bool) (n : Nat) :
    ∀ scene : Scene, ∃ last : Scene, Leads maxField maxWindow durable scene last ∧
      last.p = scene.p ∧ last.disk = scene.disk ∧ last.commits = scene.commits ∧
      last.stage
        = (Stage.next scene.request maxField maxWindow scene.p scene.disk)^[n] scene.stage := by
  induction n with
  | zero => exact fun scene => ⟨scene, .refl, rfl, rfl, rfl, rfl⟩
  | succ n ih =>
    intro scene
    rw [Function.iterate_succ_apply]
    by_cases hgoesOn : scene.stage.GoesOn
    · obtain ⟨last, hleads, hlast⟩ := ih (scene.look maxField maxWindow)
      exact ⟨last, .head (.looks hgoesOn) hleads, hlast⟩
    · have hstays : scene.stage.next scene.request maxField maxWindow scene.p scene.disk
          = scene.stage := by
        cases hstage : scene.stage with
        | idle => rfl
        | ended answer => rfl
        | _ =>
          rw [hstage] at hgoesOn
          exact absurd trivial hgoesOn
      rw [hstays]
      exact ih scene

/-- **The steps of a reader that nobody interferes with are those of a read.** -/
theorem leads_read (maxField maxWindow : Nat) (durable : Bool) (scene : Scene)
    (request : Request) :
    ∃ last, Leads maxField maxWindow durable (scene.call request) last ∧
      last.p = scene.p ∧ last.disk = scene.disk ∧ last.commits = scene.commits ∧
      last.stage
        = .ended (scene.p.read scene.disk maxField maxWindow request.start request.count) := by
  obtain ⟨n, hn⟩ := iterate_next_read maxField maxWindow request scene.p scene.disk
  obtain ⟨last, hleads, hp, hdisk, hcommits, hstage⟩ :=
    leads_iterate_next maxField maxWindow durable n (scene.call request)
  exact ⟨last, hleads, hp, hdisk, hcommits, hstage.trans hn⟩

/-! ## An append in one go -/

section Append

variable {scene : Scene} {attempt : RawAttempt} {env later : Env} {after : Partition}
  {handle : Disk.Handle}

/-- The steps of a frame that lands as a whole, up to the index. -/
theorem leads_written {written : Disk} {writing : Writing}
    (hunderway : scene.writing = some writing) (hprogress : writing.progress = .landing 0)
    (hforced : writing.forced = !durable)
    (hwrite : Partition.write scene.disk writing.handle durable writing.frame.encode
      = (.ok (), written)) :
    ∃ whole : Writing, whole.attempt = writing.attempt ∧ whole.id = writing.id ∧
      whole.now = writing.now ∧ whole.loc = writing.loc ∧
      whole.progress = .landing writing.frame.encode.length ∧ whole.forced = true ∧
      Leads maxField maxWindow durable scene (scene.write written whole) := by
  have hrest : (writing.rest 0).take writing.frame.encode.length = writing.frame.encode := by
    rw [Writing.rest, List.drop_zero, List.take_length]
  let whole := writing.reach (.landing writing.frame.encode.length)
  unfold Partition.write at hwrite
  rcases happend : scene.disk.append writing.handle writing.frame.encode with ⟨_ | _, landed⟩
  · simp [happend] at hwrite
  simp only [happend] at hwrite
  rw [← hrest] at happend
  have hlands : Step maxField maxWindow durable scene (scene.write landed
      (writing.reach (.landing (0 + writing.frame.encode.length)))) :=
    .lands hunderway hprogress (Nat.le_refl _) happend
  rw [Nat.zero_add] at hlands
  cases durable with
  | false =>
    obtain ⟨-, rfl⟩ := Prod.mk.inj hwrite
    exact ⟨whole, rfl, rfl, rfl, rfl, rfl, hforced, .single hlands⟩
  | true =>
    have hsyncs : Step maxField maxWindow true (scene.write landed whole)
        (scene.write written whole.force) := .syncs rfl rfl (List.drop_length ..) hwrite
    exact ⟨whole.force, rfl, rfl, rfl, rfl, rfl, rfl,
      (Relation.ReflTransGen.single hlands).tail hsyncs⟩

/-- The steps of a frame that cannot be written, up to the cut. -/
theorem leads_broken {failure : Disk.Failure} {written : Disk} {writing : Writing}
    (hunderway : scene.writing = some writing) (hprogress : writing.progress = .landing 0)
    (hwrite : Partition.write scene.disk writing.handle durable writing.frame.encode
      = (.error failure, written)) :
    ∃ broken : Writing, broken.handle = writing.handle ∧ broken.loc = writing.loc ∧
      broken.progress = .broken ∧
      Leads maxField maxWindow durable scene (scene.write written broken) := by
  have hrest : (writing.rest 0).take writing.frame.encode.length = writing.frame.encode := by
    rw [Writing.rest, List.drop_zero, List.take_length]
  unfold Partition.write at hwrite
  rcases happend : scene.disk.append writing.handle writing.frame.encode with ⟨_ | _, landed⟩
  all_goals
    simp only [happend] at hwrite
    rw [← hrest] at happend
  · obtain ⟨-, rfl⟩ := Prod.mk.inj hwrite
    exact ⟨writing.reach .broken, rfl, rfl, rfl, .single (.failsToLand hunderway hprogress happend)⟩
  have hlands : Step maxField maxWindow durable scene (scene.write landed
      (writing.reach (.landing (0 + writing.frame.encode.length)))) :=
    .lands hunderway hprogress (Nat.le_refl _) happend
  rw [Nat.zero_add] at hlands
  cases durable with
  | false => simp at hwrite
  | true =>
    let whole := writing.reach (.landing writing.frame.encode.length)
    have hfails : Step maxField maxWindow true (scene.write landed whole)
        (scene.write written (whole.reach .broken)) :=
      .failsToSync rfl rfl (List.drop_length ..) hwrite
    exact ⟨whole.reach .broken, rfl, rfl, rfl,
      (Relation.ReflTransGen.single hlands).tail hfails⟩

/-- **The steps of a frame that nobody interferes with are those of an append.** -/
theorem leads_append {commit : RawCommit} (hidle : scene.writing = none)
    (hdisk : env.disk = scene.disk)
    (hcommit : (frameOf attempt env.ids.next.1 env.now).IsCommit maxField)
    (hrun : scene.p.append durable attempt env = (.ok (.committed commit), after, later)) :
    Leads maxField maxWindow durable scene
      { scene with p := after, disk := later.disk, commits := scene.commits ++ [commit] } := by
  unfold Partition.append at hrun
  by_cases hexpected : attempt.expected = scene.p.tail
  case neg =>
    rw [if_pos hexpected] at hrun
    simp at hrun
  rw [if_neg (fun hne => hne hexpected)] at hrun
  cases hhandle : scene.p.handle with
  | none => simp [hhandle] at hrun
  | some handle =>
  rcases hwrite : Partition.write env.disk handle durable
    (frameOf attempt env.ids.next.1 env.now).encode with ⟨_ | _, written⟩
  · simp [hhandle, hwrite] at hrun
  simp only [hhandle, hwrite, Prod.mk.injEq, Except.ok.injEq, Outcome.committed.injEq] at hrun
  obtain ⟨rfl, rfl, rfl⟩ := hrun
  let begun := scene.begin durable attempt env.ids.next.1 env.now handle
  have hbegins : Step maxField maxWindow durable scene begun :=
    .begins hidle hhandle hexpected hcommit
  rw [hdisk] at hwrite
  obtain ⟨whole, hattempt, hid, hnow, hloc, hprogress, hforced, hwrites⟩ :=
    leads_written (show begun.writing = some _ from rfl) rfl rfl hwrite
  have hframe : whole.frame = frameOf attempt env.ids.next.1 env.now := by
    rw [Writing.frame, hattempt, hid, hnow]
  let landed := begun.write written whole
  let inserted := landed.insert whole
  let counted := inserted.advance (whole.reach .inserted)
  have hwhole : whole.rest (frameOf attempt env.ids.next.1 env.now).encode.length = [] := by
    rw [Writing.rest, hframe]
    exact List.drop_length ..
  have hinserts : Step maxField maxWindow durable landed inserted :=
    .inserts rfl hprogress hwhole hforced
  have hadvances : Step maxField maxWindow durable inserted counted := .advances rfl rfl
  have hpublishes : Step maxField maxWindow durable counted (counted.publish _) :=
    .publishes rfl rfl
  have hall := ((((Relation.ReflTransGen.single hbegins).trans hwrites).tail hinserts).tail
    hadvances).tail hpublishes
  simp only [counted, inserted, landed, begun, Scene.publish, Scene.advance, Scene.insert,
    Scene.write, Scene.begin, Writing.reach, hloc, hattempt, hid, hnow] at hall
  rw [hidle]
  exact hall

/-- **So they are when the append fails** and what has landed can be cut off. -/
theorem leads_failed_append {failure : Disk.Failure} {path : String} (hidle : scene.writing = none)
    (hdisk : env.disk = scene.disk)
    (hcommit : (frameOf attempt env.ids.next.1 env.now).IsCommit maxField)
    (hcuts : ∀ handle failure written, scene.p.handle = some handle →
      Partition.write env.disk handle durable (frameOf attempt env.ids.next.1 env.now).encode
        = (.error failure, written) →
      (written.setLength handle scene.p.tailBytes).1 = .ok ())
    (hrun : scene.p.append durable attempt env = (.error (.io failure path), after, later)) :
    after = scene.p ∧
      Leads maxField maxWindow durable scene { scene with disk := later.disk } := by
  unfold Partition.append at hrun
  by_cases hexpected : attempt.expected = scene.p.tail
  case neg =>
    rw [if_pos hexpected] at hrun
    simp at hrun
  rw [if_neg (fun hne => hne hexpected)] at hrun
  cases hhandle : scene.p.handle with
  | none => simp [hhandle] at hrun
  | some handle =>
  rcases hwrite : Partition.write env.disk handle durable
    (frameOf attempt env.ids.next.1 env.now).encode with ⟨_ | _, written⟩
  case ok => simp [hhandle, hwrite] at hrun
  have hcut := hcuts handle _ _ hhandle hwrite
  simp only [hhandle, hwrite, Prod.mk.injEq] at hrun
  obtain ⟨-, rfl, rfl⟩ := hrun
  let begun := scene.begin durable attempt env.ids.next.1 env.now handle
  have hbegins : Step maxField maxWindow durable scene begun :=
    .begins hidle hhandle hexpected hcommit
  rw [hdisk] at hwrite
  obtain ⟨broken, hsame, hloc, hprogress, hbreaks⟩ :=
    leads_broken (show begun.writing = some _ from rfl) rfl hwrite
  have hcutting : (written.setLength broken.handle broken.loc.pos)
      = (.ok (), (written.setLength handle scene.p.tailBytes).2) := by
    rw [hsame, hloc]
    exact Prod.ext hcut rfl
  have hcuts : Step maxField maxWindow durable (begun.write written broken)
      ((begun.write written broken).cut _) := .cuts rfl hprogress hcutting
  refine ⟨rfl, ?_⟩
  rw [hidle]
  exact ((Relation.ReflTransGen.single hbegins).trans hbreaks).tail hcuts

end Append

end CommitLog.Reading
