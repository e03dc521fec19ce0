import CommitLog.Proofs.Topic.Agreement
import Mathlib.Logic.Function.Iterate
import Mathlib.Logic.Relation

/-!
# Verifying a topic that is being written to

Verifying looks at each partition twice: it scans the file, and then it loads the tail of the index
to compare. Nothing holds the writer back meanwhile. The bytes of a frame land in as many pieces as
the system takes them in, they are forced to stable storage if that is asked for, and the frame is
recorded last. Here all of these are steps of their own, and come in any order.

A scan goes by the length that the file had when it began, and what lies before that does not change
while the file is only appended to. So it is a single step here, however long it takes.

Run in one go, the steps of a survey are `Topic.verify` (`iterate_next_verify`), and those of a frame
are `Topic.append` (`leads_append`).
-/

namespace CommitLog.Survey

open CommitLog.Partition (frameOf commitOf)

/-! ## The writer -/

/-- A frame on its way to the file of a partition. -/
structure Writing where
  number : UInt32
  handle : Disk.Handle
  frame : Frame
  /-- How many of its bytes have landed. -/
  landed : Nat := 0
  /-- Whether it has been forced to stable storage, or need not be. -/
  forced : Bool

namespace Writing

/-- The bytes that have not landed yet. -/
def rest (writing : Writing) : Bytes := writing.frame.encode.drop writing.landed

/-- The frame when some more of its bytes have landed. -/
def land (writing : Writing) (count : Nat) : Writing :=
  { writing with landed := writing.landed + count }

/-- The frame when it has been forced to stable storage. -/
def force (writing : Writing) : Writing := { writing with forced := true }

end Writing

/-! ## The survey -/

/-- What a survey does next. -/
inductive Stage where
  | idle
  /-- Scans the file of the next partition. Those before it reach as far as was found. -/
  | scanning (found : List Revision)
  /-- Loads the tail of the next partition, whose file has been scanned. -/
  | comparing (found : List Revision) (scan : Partition.Scan)
  | ended (answer : Except LogError Revisions)

/-- The next step of a survey. Partitions have their places in the row of what was found. -/
def Stage.next (topic : Topic) (disk : Disk) : Stage → Stage
  | idle => scanning []
  | scanning found =>
    match topic.partitions[found.length]? with
    | none => ended (.ok (.ofList found))
    | some p =>
      match Partition.scanFile disk p.path topic.maxEntryBytes topic.maxMapBytes with
      | .error failure => ended (.error failure)
      | .ok scan =>
        match scan.torn with
        | some torn => ended (.error (.corrupt p.path.display scan.validBytes (.torn torn)))
        | none => comparing found scan
  | comparing found scan =>
    match topic.partitions[found.length]? with
    | none => comparing found scan
    | some p =>
      if scan.entries < p.tailOffset then
        ended (.error (.corrupt p.path.display scan.validBytes
          (.entriesMissing scan.entries p.tailOffset)))
      else scanning (found ++ [⟨p.number, UInt64.ofNat scan.entries⟩])
  | ended answer => ended answer

/-- What there was when a survey looked at a partition. -/
structure Look where
  number : UInt32
  /-- How many entries were recorded when the file was scanned. -/
  recorded : Nat
  /-- The frame that was on its way to the file then. -/
  writing : Option Writing
  /-- How many entries were recorded when the tail was loaded, after the scan. -/
  loaded : Nat

/-- Bytes of a frame had landed, but not all of them. -/
def Look.IsTorn (look : Look) : Prop :=
  ∃ writing, look.writing = some writing ∧ 0 < writing.landed ∧ writing.rest ≠ []

/-- How many entries the whole frames of the file held: those that were recorded, and those of a
frame that had landed and was not recorded yet. -/
def Look.found (look : Look) : Nat :=
  look.recorded + match look.writing with
    | some writing => if writing.rest = [] then writing.frame.entries.length else 0
    | none => 0

/-- A frame that the scan has not seen was recorded before the tail was loaded. -/
def Look.IsOvertaken (look : Look) : Prop := look.found < look.loaded

/-- A frame that the scan has seen was still not recorded when the tails were at `last`. -/
def Look.IsAhead (look : Look) (last : Revisions) : Prop :=
  (last.get look.number).offset.toNat < look.found

/-! ## Both together -/

/-- A topic with its surroundings, its writer and a survey. -/
structure Scene where
  topic : Topic
  env : Env
  writing : Option Writing := none
  stage : Stage := .idle
  /-- The tails when the survey began. No step looks at this, nor at what follows. -/
  first : Revisions := .empty
  /-- What there was to see so far, the last look first. -/
  looks : List Look := []
  /-- The tails at the last step of the survey. -/
  last : Revisions := .empty

namespace Scene

/-- What there is to see of a partition. -/
def look (scene : Scene) (p : Partition) : Look where
  number := p.number
  recorded := p.tailOffset
  writing := scene.writing.filter fun writing => writing.number == p.number
  loaded := p.tailOffset

/-- What has been there to see, after the next step of the survey. -/
def nextLooks (scene : Scene) : List Look :=
  match scene.stage with
  | .scanning found =>
    match scene.topic.partitions[found.length]? with
    | none => scene.looks
    | some p => scene.look p :: scene.looks
  | .comparing found _ =>
    match scene.topic.partitions[found.length]?, scene.looks with
    | some p, look :: earlier => { look with loaded := p.tailOffset } :: earlier
    | _, looks => looks
  | _ => scene.looks

/-- The scene after the next step of the survey. -/
def survey (scene : Scene) : Scene :=
  { scene with
    stage := scene.stage.next scene.topic scene.env.disk
    first := match scene.stage with
      | .idle => scene.topic.tails
      | _ => scene.first
    looks := scene.nextLooks
    last := scene.topic.tails }

/-- The scene when an attempt has become a frame that is to be written. -/
def begin (scene : Scene) (attempt : RawAttempt) (now : UInt64) (handle : Disk.Handle) : Scene :=
  { scene with
    env := { scene.env with ids := scene.env.ids.next.2, now }
    writing := some {
      number := attempt.expected.partition
      handle
      frame := frameOf attempt scene.env.ids.next.1 now
      forced := !scene.topic.durable } }

/-- The scene when the writer has come this far with the file and its frame. -/
def write (scene : Scene) (disk : Disk) (writing : Writing) : Scene :=
  { scene with env := { scene.env with disk }, writing := some writing }

/-- The scene when the frame has been recorded in its partition. -/
def record (scene : Scene) (writing : Writing) (p : Partition) : Scene :=
  { scene with
    topic := scene.topic.putPartition writing.number (p.record ⟨p.tailOffset, p.tailBytes,
      writing.frame.encode.length, writing.frame.entries.length⟩)
    writing := none }

end Scene

/-- One step of the writer or of the survey. An attempt that does not become a commit changes
nothing, and takes no step. -/
inductive Step (scene : Scene) : Scene → Prop where
  /-- An attempt finds the tail where it expects it, and becomes a frame. -/
  | begins {attempt : RawAttempt} {now : UInt64} {p : Partition} {handle : Disk.Handle}
      (idle : scene.writing = none)
      (partition : scene.topic.partition attempt.expected.partition = .ok p)
      (refusal : scene.topic.refusal? attempt = none) (expected : attempt.expected = p.tail)
      (isOpen : p.handle = some handle) :
      Step scene (scene.begin attempt now handle)
  /-- Some more bytes of the frame land. -/
  | lands {writing : Writing} {count : Nat} {disk : Disk} (underway : scene.writing = some writing)
      (count_le : count ≤ writing.rest.length)
      (lands : scene.env.disk.append writing.handle (writing.rest.take count) = (.ok (), disk)) :
      Step scene (scene.write disk (writing.land count))
  /-- The frame is forced to stable storage. -/
  | syncs {writing : Writing} {disk : Disk} (underway : scene.writing = some writing)
      (whole : writing.rest = []) (syncs : scene.env.disk.sync writing.handle = (.ok (), disk)) :
      Step scene (scene.write disk writing.force)
  /-- The frame is recorded. -/
  | records {writing : Writing} {p : Partition} (underway : scene.writing = some writing)
      (whole : writing.rest = []) (forced : writing.forced = true)
      (partition : scene.topic.partition writing.number = .ok p) :
      Step scene (scene.record writing p)
  /-- The survey takes a step. -/
  | surveys (goesOn : ∀ answer, scene.stage ≠ .ended answer) : Step scene scene.survey

/-- One scene is followed by another. -/
abbrev Leads : Scene → Scene → Prop := Relation.ReflTransGen Step

/-! ## In one go -/

variable {topic : Topic}

theorem next_scanning_of_partition (disk : Disk) {found : List Revision} {p : Partition}
    (hp : topic.partitions[found.length]? = some p) :
    ∃ n, (Stage.next topic disk)^[n] (.scanning found)
      = match p.verify disk topic.maxEntryBytes topic.maxMapBytes with
        | .error failure => .ended (.error failure)
        | .ok revision => .scanning (found ++ [revision]) := by
  have hscanning : Stage.next topic disk (.scanning found)
      = match Partition.scanFile disk p.path topic.maxEntryBytes topic.maxMapBytes with
        | .error failure => .ended (.error failure)
        | .ok scan =>
          match scan.torn with
          | some torn => .ended (.error (.corrupt p.path.display scan.validBytes (.torn torn)))
          | none => .comparing found scan := by
    rw [Stage.next, hp]
  rw [Partition.verify]
  cases hscan : Partition.scanFile disk p.path topic.maxEntryBytes topic.maxMapBytes with
  | error failure =>
    rw [hscan] at hscanning
    exact ⟨1, hscanning⟩
  | ok scan =>
    cases htorn : scan.torn with
    | some torn =>
      simp only [hscan, htorn] at hscanning
      exact ⟨1, by simp only [Function.iterate_one, hscanning, bind, Except.bind, htorn]; rfl⟩
    | none =>
      simp only [hscan, htorn] at hscanning
      refine ⟨2, ?_⟩
      rw [Function.iterate_succ_apply, Function.iterate_one, hscanning, Stage.next, hp]
      simp only [bind, Except.bind, htorn]
      split <;> rfl

/-- From any place on, a survey verifies the partitions that are left. -/
theorem iterate_next_scanning (disk : Disk) : ∀ (left : List Partition) (found : List Revision),
    topic.partitions.drop found.length = left → ∃ n,
      (Stage.next topic disk)^[n] (.scanning found) = .ended
        ((left.mapM fun (p : Partition) =>
          p.verify disk topic.maxEntryBytes topic.maxMapBytes).map
          fun more => .ofList (found ++ more)) := by
  intro left
  induction left with
  | nil =>
    intro found hleft
    have hnone : topic.partitions[found.length]? = none :=
      List.getElem?_eq_none (List.drop_eq_nil_iff.1 hleft)
    refine ⟨1, ?_⟩
    rw [Function.iterate_one, Stage.next, hnone]
    simp only [List.mapM_nil, pure, Except.pure, Except.map, List.append_nil]
  | cons p later ih =>
    intro found hleft
    have hp : topic.partitions[found.length]? = some p := by
      rw [← Nat.add_zero found.length, ← List.getElem?_drop, hleft]
      rfl
    obtain ⟨n, hn⟩ := next_scanning_of_partition disk hp
    cases hverify : p.verify disk topic.maxEntryBytes topic.maxMapBytes with
    | error failure =>
      rw [hverify] at hn
      refine ⟨n, ?_⟩
      rw [hn, List.mapM_cons, hverify]
      rfl
    | ok revision =>
      rw [hverify] at hn
      have hlater : topic.partitions.drop (found ++ [revision]).length = later := by
        rw [List.length_append, List.length_singleton, ← List.drop_drop, hleft]
        rfl
      obtain ⟨m, hm⟩ := ih (found ++ [revision]) hlater
      refine ⟨m + n, ?_⟩
      rw [Function.iterate_add_apply, hn, hm, List.mapM_cons, hverify]
      simp only [bind, Except.bind, pure, Except.pure]
      cases later.mapM fun (p : Partition) =>
        p.verify disk topic.maxEntryBytes topic.maxMapBytes with
      | error failure => rfl
      | ok more => simp only [Except.map, List.append_assoc, List.singleton_append]

/-- **A survey that nobody interferes with is a verification.** -/
theorem iterate_next_verify (topic : Topic) (disk : Disk) :
    ∃ n, (Stage.next topic disk)^[n] .idle = .ended (topic.verify disk) := by
  obtain ⟨n, hn⟩ := iterate_next_scanning disk topic.partitions [] rfl
  refine ⟨n + 1, ?_⟩
  rw [Function.iterate_succ_apply]
  exact hn

/-- The steps of a frame that is written in one go. -/
theorem leads_write (scene : Scene) {writing : Writing} {durable : Bool} {after : Disk}
    (hunderway : scene.writing = some writing) (hlanded : writing.landed = 0)
    (hforced : writing.forced = !durable)
    (hwrite : Partition.write scene.env.disk writing.handle durable writing.frame.encode
      = (.ok (), after)) :
    ∃ written : Writing, written.number = writing.number ∧ written.frame = writing.frame ∧
      written.rest = [] ∧ written.forced = true ∧ Leads scene (scene.write after written) := by
  have hrest : writing.rest = writing.frame.encode := by
    rw [Writing.rest, hlanded, List.drop_zero]
  have hwhole : (writing.land writing.rest.length).rest = [] := by
    rw [Writing.land, hrest, hlanded, Nat.zero_add, Writing.rest, List.drop_length]
  unfold Partition.write at hwrite
  rcases happend : scene.env.disk.append writing.handle writing.frame.encode
    with ⟨_ | _, landed⟩
  · simp [happend] at hwrite
  · simp only [happend] at hwrite
    have hlands : Step scene (scene.write landed (writing.land writing.rest.length)) :=
      .lands hunderway (Nat.le_refl _) (by rw [List.take_length, hrest]; exact happend)
    cases durable with
    | false =>
      obtain ⟨-, rfl⟩ := Prod.mk.inj hwrite
      exact ⟨writing.land _, rfl, rfl, hwhole, hforced, .single hlands⟩
    | true =>
      have hsyncs : Step (scene.write landed (writing.land writing.rest.length))
          (scene.write after (writing.land writing.rest.length).force) :=
        .syncs rfl hwhole hwrite
      exact ⟨(writing.land _).force, rfl, rfl, hwhole, rfl, (Relation.ReflTransGen.single hlands).tail hsyncs⟩

/-- **The steps of a frame that nobody interferes with are those of an append.** -/
theorem leads_append {scene : Scene} {attempt : RawAttempt} {commit : RawCommit} {after : Topic}
    {later : Env} (hidle : scene.writing = none)
    (hrun : scene.topic.append attempt scene.env = (.ok (.committed commit), after, later)) :
    Leads scene { scene with topic := after, env := later } := by
  unfold Topic.append at hrun
  cases hp : scene.topic.partition attempt.expected.partition with
  | error failure => simp [hp] at hrun
  | ok p =>
  cases hrefusal : scene.topic.refusal? attempt with
  | some failure => simp [hp, hrefusal] at hrun
  | none =>
  rcases happend : p.append scene.topic.durable attempt scene.env with ⟨result, moved, reached⟩
  simp only [hp, hrefusal, happend, Prod.mk.injEq] at hrun
  obtain ⟨rfl, rfl, rfl⟩ := hrun
  unfold Partition.append at happend
  by_cases hexpected : attempt.expected = p.tail
  · rw [if_neg (fun hne => hne hexpected)] at happend
    cases hhandle : p.handle with
    | none => simp [hhandle] at happend
    | some handle =>
      rcases hwrite : Partition.write scene.env.disk handle scene.topic.durable
        (frameOf attempt scene.env.ids.next.1 scene.env.now).encode with ⟨_ | _, written⟩
      · simp [hhandle, hwrite] at happend
      · simp only [hhandle, hwrite, Prod.mk.injEq] at happend
        obtain ⟨-, rfl, rfl⟩ := happend
        let begun := scene.begin attempt scene.env.now handle
        have hbegins : Step scene begun := .begins hidle hp hrefusal hexpected hhandle
        obtain ⟨writing, hnumber, hframe, hwhole, hforced, hwrites⟩ :=
          leads_write begun rfl rfl rfl hwrite
        have hpartition : scene.topic.partition writing.number = .ok p := by
          rw [hnumber]
          exact hp
        have hrecords : Step (begun.write written writing)
            ((begun.write written writing).record writing p) :=
          .records rfl hwhole hforced hpartition
        have hall := ((Relation.ReflTransGen.single hbegins).trans hwrites).tail hrecords
        rw [Scene.record, hnumber, hframe] at hall
        rw [hidle]
        exact hall
  · rw [if_pos hexpected] at happend
    simp at happend

end CommitLog.Survey
