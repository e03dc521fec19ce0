import CommitLog.Proofs.Partition.Read
import CommitLog.Proofs.Reading.Kept
import CommitLog.Proofs.Topic.New

/-!
# Whole commits only

A reader that takes its steps while the writer takes others gives exactly the commits between its
start and the tail that it has loaded, as many as were asked for, each as it was committed
(`reads_whole_commits`). Nothing that the writer does meanwhile can make it fail: the frames in front
of a tail that was once loaded stay where they are, in the index and in the file, and the file is
never shorter than they are.

`Sees` says for every place that a reader can have come to what it has in its hands. The frames are
cut in three for that: those in front of the start, those up to the tail that was loaded, and those
that were committed since. The reader goes by the second part alone, and the third may grow.
-/

namespace CommitLog.Reading

open CommitLog.Disk (maxFileLength)
open CommitLog.Frame (IsCommit)
open CommitLog.Partition (Location Window encodeAll encodeAll_append encodeAll_cons entryCount
  entryCount_append entryCount_cons entryCount_nil commitsFrom_append locations locations_append)

variable {maxField maxWindow file : Nat} {durable : Bool} {scene last : Scene} {p : Partition}
  {disk : Disk} {frames front mid : List Frame} {request : Request} {reached : Option Nat}
  {stage : Stage}

/-! ## How long a read can take -/

/-- How many steps the windows take at most. -/
def windowSteps (windows : List Window) : Nat :=
  total (windows.map fun window => window.frames.length + 2)

/-- How many steps a reader has left at most. -/
def Stage.left (count : Nat) : Stage → Nat
  | idle => 0
  | called => 3 * count + 6
  | loaded _ => 3 * count + 5
  | found _ => 3 * count + 4
  | collected locs => 3 * locs.length + 3
  | opened _ locs => 3 * locs.length + 2
  | reading _ _ windows _ => windowSteps windows + 1
  | decoding _ _ _ left windows _ => left.length + windowSteps windows + 2
  | ended _ => 0

/-- Every window has a frame at least. -/
theorem windowSteps_group_le (limit : Nat) (locs : List Location) :
    windowSteps (Window.group limit locs) ≤ 3 * locs.length := by
  fun_induction Window.group limit locs with
  | case1 => simp [windowSteps]
  | case2 first rest ih =>
    have hsplit := congrArg List.length
      (List.takeWhile_append_dropWhile (l := rest) (p := Window.admits limit first.pos))
    rw [List.length_append] at hsplit
    unfold windowSteps at ih ⊢
    rw [List.map_cons, total_cons]
    simp only [Window.frames, List.length_cons] at ih ⊢
    omega

/-- Every step brings a reader nearer to its end. -/
theorem left_next_lt (request : Request) (maxField maxWindow : Nat) (p : Partition) (disk : Disk)
    (hgoesOn : stage.GoesOn) :
    (stage.next request maxField maxWindow p disk).left request.count < stage.left request.count := by
  cases stage with
  | idle => exact hgoesOn.elim
  | called => exact Nat.lt_succ_self _
  | loaded tail =>
    rw [Stage.next]
    split
    · exact Nat.succ_pos _
    split
    · exact Nat.succ_pos _
    split
    · exact Nat.succ_pos _
    · exact Nat.lt_succ_self _
  | found tail =>
    have hcount : ({ p with tailOffset := tail }.framesFrom request.start.offset.toNat
        request.count).length ≤ request.count := List.length_take_le ..
    show 3 * List.length _ + 3 < 3 * request.count + 4
    omega
  | collected locs =>
    rw [Stage.next]
    split
    · exact Nat.succ_pos _
    · exact Nat.lt_succ_self _
  | opened entry locs => exact Nat.succ_lt_succ (Nat.lt_succ_of_le (windowSteps_group_le ..))
  | reading entry length windows commits =>
    cases windows with
    | nil => exact Nat.succ_pos _
    | cons window later =>
      rw [Stage.next]
      split
      · exact Nat.succ_pos _
      · simp only [Stage.left, windowSteps, List.map_cons, total_cons]
        omega
  | decoding entry length window left windows commits =>
    cases left with
    | nil =>
      simp only [Stage.next, Stage.left, List.length_nil]
      omega
    | cons loc left =>
      rw [Stage.next]
      split
      · exact Nat.succ_pos _
      · simp only [Stage.left, List.length_cons]
        omega
  | ended answer => exact hgoesOn.elim

theorem next_ne_called (request : Request) (maxField maxWindow : Nat) (p : Partition)
    (disk : Disk) (hcalled : stage ≠ .called) :
    stage.next request maxField maxWindow p disk ≠ .called := by
  cases stage with
  | called => exact absurd rfl hcalled
  | loaded tail =>
    simp only [Stage.next]
    split_ifs <;> simp
  | collected locs =>
    rw [Stage.next]
    split <;> simp
  | reading entry length windows commits =>
    cases windows with
    | nil => simp [Stage.next]
    | cons window later =>
      rw [Stage.next]
      split <;> simp
  | decoding entry length window left windows commits =>
    cases left with
    | nil => simp [Stage.next]
    | cons loc left =>
      rw [Stage.next]
      split <;> simp
  | _ => simp [Stage.next]

/-- **A reader that is left alone comes to its end.** -/
theorem exists_ended (maxField maxWindow : Nat) (durable : Bool) (scene : Scene) :
    ∃ last, Leads maxField maxWindow durable scene last ∧ ¬last.stage.GoesOn ∧
      last.commits = scene.commits ∧ (scene.stage ≠ .called → last.loaded = scene.loaded) := by
  by_cases hgoesOn : scene.stage.GoesOn
  · obtain ⟨last, hleads, hended, hcommits, hloaded⟩ :=
      exists_ended maxField maxWindow durable (scene.look maxField maxWindow)
    refine ⟨last, .head (.looks hgoesOn) hleads, hended, hcommits, fun hcalled => ?_⟩
    rw [hloaded (next_ne_called _ _ _ _ _ hcalled), Scene.look]
    cases hstage : scene.stage with
    | called => exact absurd hstage hcalled
    | _ => rfl
  · exact ⟨scene, .refl, hgoesOn, rfl, fun _ => rfl⟩
termination_by scene.stage.left scene.request.count
decreasing_by exact left_next_lt _ _ _ _ _ hgoesOn

/-! ## What a reader has in its hands -/

/-- The frames in front of the start, and those from there up to the tail that was loaded. -/
structure Covers (request : Request) (frames front mid : List Frame) (reached : Option Nat) :
    Prop where
  isPrefix : front ++ mid <+: frames
  start : entryCount front = request.start.offset.toNat
  reached : reached = some (entryCount (front ++ mid))

/-- What a reader has in its hands when it has come this far. -/
inductive Sees (number : UInt32) (maxWindow file : Nat) (request : Request) (frames : List Frame)
    (reached : Option Nat) : Stage → Prop
  | called {front : List Frame} (isPrefix : front <+: frames)
      (start : entryCount front = request.start.offset.toNat) (nothing : reached = none) :
      Sees number maxWindow file request frames reached .called
  | loaded {front mid : List Frame} {tail : Nat} (covers : Covers request frames front mid reached)
      (tail_eq : tail = entryCount (front ++ mid)) :
      Sees number maxWindow file request frames reached (.loaded tail)
  | found {front mid : List Frame} {tail : Nat} (covers : Covers request frames front mid reached)
      (tail_eq : tail = entryCount (front ++ mid)) :
      Sees number maxWindow file request frames reached (.found tail)
  | collected {front mid : List Frame} (covers : Covers request frames front mid reached) :
      Sees number maxWindow file request frames reached
        (.collected (Partition.locationsBehind front (mid.take request.count)))
  | opened {front mid : List Frame} (covers : Covers request frames front mid reached) :
      Sees number maxWindow file request frames reached
        (.opened (.file file) (Partition.locationsBehind front (mid.take request.count)))
  | reading {front mid before after : List Frame} {length : Nat}
      (covers : Covers request frames front mid reached)
      (split : mid.take request.count = before ++ after)
      (long : (encodeAll (front ++ mid)).length ≤ length) :
      Sees number maxWindow file request frames reached
        (.reading (.file file) length
          (Window.group maxWindow (Partition.locationsBehind (front ++ before) after))
          (commitsFrom number (entryCount front) before))
  | decoding {front mid before done left after : List Frame} {window : Window} {length : Nat}
      (covers : Covers request frames front mid reached)
      (split : mid.take request.count = before ++ ((done ++ left) ++ after))
      (shown : window.frames = Partition.locationsBehind (front ++ before) (done ++ left))
      (long : (encodeAll (front ++ mid)).length ≤ length) :
      Sees number maxWindow file request frames reached
        (.decoding (.file file) length window
          (Partition.locationsBehind (front ++ before ++ done) left)
          (Window.group maxWindow
            (Partition.locationsBehind (front ++ before ++ (done ++ left)) after))
          (commitsFrom number (entryCount front) (before ++ done)))
  | ended {front mid : List Frame} (covers : Covers request frames front mid reached) :
      Sees number maxWindow file request frames reached
        (.ended (.ok (commitsFrom number (entryCount front) (mid.take request.count))))

theorem Covers.mono {later : List Frame} (h : Covers request frames front mid reached)
    (hmore : frames <+: later) : Covers request later front mid reached :=
  ⟨h.isPrefix.trans hmore, h.start, h.reached⟩

/-- Commits that are added behind the others make no difference to what a reader has. -/
theorem Sees.mono {number : UInt32} {later : List Frame}
    (h : Sees number maxWindow file request frames reached stage) (hmore : frames <+: later) :
    Sees number maxWindow file request later reached stage := by
  cases h with
  | called hfront hstart hnothing => exact .called (hfront.trans hmore) hstart hnothing
  | loaded hcovers htail => exact .loaded (hcovers.mono hmore) htail
  | found hcovers htail => exact .found (hcovers.mono hmore) htail
  | collected hcovers => exact .collected (hcovers.mono hmore)
  | opened hcovers => exact .opened (hcovers.mono hmore)
  | reading hcovers hsplit hlong => exact .reading (hcovers.mono hmore) hsplit hlong
  | decoding hcovers hsplit hshown hlong =>
    exact .decoding (hcovers.mono hmore) hsplit hshown hlong
  | ended hcovers => exact .ended (hcovers.mono hmore)

/-! ## Steps of the reader -/

theorem eq_nil_of_entryCount (hentries : ∀ frame ∈ frames, frame.entries ≠ [])
    (h : entryCount frames = 0) : frames = [] := by
  cases frames with
  | nil => rfl
  | cons frame later =>
    have hpos := List.length_pos_iff.2 (hentries frame List.mem_cons_self)
    rw [entryCount_cons] at h
    omega

/-- The tail that has been loaded when the next step is taken. -/
def Stage.reaches (p : Partition) (reached : Option Nat) : Stage → Option Nat
  | called => some p.tailOffset
  | _ => reached

theorem length_encodeAll_le {front frames : List Frame} (h : front <+: frames) :
    (encodeAll front).length ≤ (encodeAll frames).length := by
  obtain ⟨later, rfl⟩ := h
  rw [encodeAll_append, List.length_append]
  exact Nat.le_add_right ..

namespace Shows

variable (h : Shows maxField file p disk frames)

include h

theorem entries_ne : ∀ frame ∈ frames, frame.entries ≠ [] :=
  fun frame hframe => (h.isCommit frame hframe).entries_ne

/-- A window shows its frames, whatever stands behind them. -/
theorem stretch_eq {window : Window} {head rest : List Frame}
    (hframes : frames = front ++ (head ++ rest))
    (hwindow : window.frames = Partition.locationsBehind front head) :
    stretch disk (.file file) window = encodeAll head := by
  obtain ⟨left, hcontent⟩ := h.content
  obtain ⟨hpos, hend⟩ := Partition.bounds_of_window hwindow
  rw [stretch, bytesOf, hcontent, hpos, hend, hframes, encodeAll_append, encodeAll_append,
    encodeAll_append, List.append_assoc, List.append_assoc, List.drop_left' rfl,
    List.length_append, Nat.add_sub_cancel_left, List.take_left' rfl]

/-- A frame of a window is decoded to its commit. -/
theorem readFrame_eq {window : Window} {done left rest : List Frame} {frame : Frame}
    (hframes : frames = front ++ ((done ++ frame :: left) ++ rest))
    (hwindow : window.frames = Partition.locationsBehind front (done ++ frame :: left)) :
    p.readFrame maxField (stretch disk (.file file) window) window.pos
        ⟨entryCount (front ++ done), (encodeAll (front ++ done)).length, frame.encode.length,
          frame.entries.length⟩
      = .ok (commitAt p.number (entryCount (front ++ done)) frame) := by
  have hcommit : IsCommit maxField frame := h.isCommit frame (by rw [hframes]; simp)
  rw [h.stretch_eq hframes hwindow, (Partition.bounds_of_window hwindow).1, encodeAll_append,
    encodeAll_cons, encodeAll_append, List.length_append]
  exact Partition.readFrame_of_frame p hcommit (encodeAll done) (encodeAll left)
    (encodeAll front).length (entryCount (front ++ done))

/-- The start is found in the index, unless there is nothing to be read. -/
theorem hasFrameAt_of_covers (hcovers : Covers request frames front mid reached)
    (hmid : mid ≠ []) : p.hasFrameAt request.start.offset.toNat = true := by
  obtain ⟨rest, rfl⟩ := hcovers.isPrefix
  obtain ⟨frame, later, rfl⟩ := List.exists_cons_of_ne_nil hmid
  obtain ⟨more, hindex⟩ := h.index
  rw [← hcovers.start]
  have hsplit : p.frames = locations (front ++ frame :: (later ++ (rest ++ more))) := by
    rw [hindex]
    simp only [List.append_assoc, List.cons_append]
  exact Partition.hasFrameAt_of_boundary hsplit

/-- The frames from the start up to the tail that was loaded are collected. -/
theorem framesFrom_of_covers (hcovers : Covers request frames front mid reached) :
    Partition.framesFrom { p with tailOffset := entryCount (front ++ mid) }
        request.start.offset.toNat request.count
      = Partition.locationsBehind front (mid.take request.count) := by
  obtain ⟨rest, rfl⟩ := hcovers.isPrefix
  obtain ⟨more, hindex⟩ := h.index
  rw [← hcovers.start]
  let known : Partition := { p with tailOffset := entryCount (front ++ mid) }
  have hsplit : known.frames = locations (front ++ (mid ++ (rest ++ more))) := by
    show p.frames = _
    rw [hindex]
    simp only [List.append_assoc]
  have htail : known.tailOffset = entryCount (front ++ mid) := rfl
  exact Partition.framesFrom_of_between hsplit htail
    (fun frame hframe => h.entries_ne frame (List.mem_append_left _ hframe)) _

end Shows

/-- **Every step of a reader keeps what it sees**, whatever the writer has done before it. -/
theorem Sees.next (hshows : Shows maxField file p disk frames)
    (h : Sees p.number maxWindow file request frames reached stage) :
    Sees p.number maxWindow file request frames (stage.reaches p reached)
      (stage.next request maxField maxWindow p disk) := by
  cases h with
  | called hprefix hstart hnothing =>
    obtain ⟨mid, rfl⟩ := hprefix
    exact .loaded ⟨List.prefix_rfl, hstart, by rw [Stage.reaches, hshows.tailOffset]⟩
      hshows.tailOffset
  | @loaded front mid tail hcovers htail =>
    have hle : ¬tail < request.start.offset.toNat := by
      rw [htail, ← hcovers.start, entryCount_append]
      omega
    rw [Stage.next]
    simp only [if_neg hle]
    by_cases hnone : request.start.offset.toNat = tail ∨ request.count = 0
    · -- nothing is asked for, or nothing is there
      have hempty : mid.take request.count = [] := by
        rcases hnone with hsame | hzero
        · rw [htail, ← hcovers.start, entryCount_append] at hsame
          have hentries : ∀ frame ∈ mid, frame.entries ≠ [] := fun frame hframe =>
            hshows.entries_ne frame (hcovers.isPrefix.subset (List.mem_append_right _ hframe))
          rw [eq_nil_of_entryCount hentries (by omega), List.take_nil]
        · rw [hzero, List.take_zero]
      have hended : Sees p.number maxWindow file request frames reached
          (.ended (.ok (commitsFrom p.number (entryCount front) (mid.take request.count)))) :=
        .ended hcovers
      rw [hempty] at hended
      rw [if_pos hnone]
      exact hended
    · have hmid : mid ≠ [] := by
        rintro rfl
        rw [htail, ← hcovers.start, List.append_nil] at hnone
        exact hnone (.inl rfl)
      rw [if_neg hnone, hshows.hasFrameAt_of_covers hcovers hmid]
      exact .found hcovers htail
  | found hcovers htail =>
    rw [Stage.next, htail, hshows.framesFrom_of_covers hcovers]
    exact .collected hcovers
  | collected hcovers =>
    have hopen : openRead disk p.path = .ok (.file file) := by rw [openRead, hshows.resolve]
    rw [Stage.next, hopen]
    exact .opened hcovers
  | @opened front mid hcovers =>
    obtain ⟨left, hcontent⟩ := hshows.content
    have hlong : (encodeAll (front ++ mid)).length ≤ (bytesOf disk (.file file)).length := by
      rw [bytesOf, hcontent, List.length_append]
      exact Nat.le_trans (length_encodeAll_le hcovers.isPrefix) (Nat.le_add_right ..)
    have hreading : Sees p.number maxWindow file request frames reached (.reading (.file file) _
        (Window.group maxWindow
          (Partition.locationsBehind (front ++ []) (mid.take request.count)))
        (commitsFrom p.number (entryCount front) [])) := .reading hcovers rfl hlong
    rw [List.append_nil] at hreading
    exact hreading
  | @reading front mid before after length hcovers hsplit hlong =>
    cases after with
    | nil =>
      have hended : Sees p.number maxWindow file request frames reached
          (.ended (.ok (commitsFrom p.number (entryCount front) (mid.take request.count)))) :=
        .ended hcovers
      rw [hsplit, List.append_nil] at hended
      have hgroup : Window.group maxWindow (Partition.locationsBehind (front ++ before) []) = [] := by
        simp [Partition.locationsBehind, Partition.locate, Window.group]
      rw [hgroup]
      exact hended
    | cons frame after =>
      obtain ⟨window, head, rest, hall, hshown, hgroup⟩ :=
        Partition.exists_window maxWindow (front ++ before) frame after
      rw [hall] at hsplit
      have hwithin : (front ++ before) ++ head <+: front ++ mid := by
        rw [List.append_assoc, List.prefix_append_right_inj]
        refine List.IsPrefix.trans ?_ (List.take_prefix request.count mid)
        rw [hsplit, ← List.append_assoc]
        exact List.prefix_append ..
      have hend : ¬length < window.endPos := by
        rw [(Partition.bounds_of_window hshown).2]
        exact Nat.not_lt.2 (Nat.le_trans (length_encodeAll_le hwithin) hlong)
      rw [hgroup, Stage.next, if_neg hend]
      have hdecoding : Sees p.number maxWindow file request frames reached
          (.decoding (.file file) length window
            (Partition.locationsBehind (front ++ before ++ []) head)
            (Window.group maxWindow
              (Partition.locationsBehind (front ++ before ++ ([] ++ head)) rest))
            (commitsFrom p.number (entryCount front) (before ++ []))) :=
        .decoding hcovers hsplit hshown hlong
      simp only [List.append_nil, List.nil_append] at hdecoding
      rw [hshown]
      exact hdecoding
  | @decoding front mid before done left after window length hcovers hsplit hshown hlong =>
    cases left with
    | nil =>
      rw [List.append_nil] at hsplit ⊢
      have hreading : Sees p.number maxWindow file request frames reached
          (.reading (.file file) length
            (Window.group maxWindow (Partition.locationsBehind (front ++ (before ++ done)) after))
            (commitsFrom p.number (entryCount front) (before ++ done))) :=
        .reading hcovers (by rw [hsplit, List.append_assoc]) hlong
      rw [← List.append_assoc] at hreading
      exact hreading
    | cons frame left =>
      obtain ⟨rest, hframes⟩ := hcovers.isPrefix
      have hwithin : frames = (front ++ before)
          ++ ((done ++ frame :: left) ++ (after ++ (mid.drop request.count ++ rest))) := by
        rw [← hframes]
        conv_lhs => rw [← List.take_append_drop request.count mid, hsplit]
        simp only [List.append_assoc]
      have hread := hshows.readFrame_eq hwithin hshown
      have hdecoding : Sees p.number maxWindow file request frames reached
          (.decoding (.file file) length window
            (Partition.locationsBehind (front ++ before ++ (done ++ [frame])) left)
            (Window.group maxWindow
              (Partition.locationsBehind (front ++ before ++ ((done ++ [frame]) ++ left)) after))
            (commitsFrom p.number (entryCount front) (before ++ (done ++ [frame])))) := by
        have hsame : done ++ frame :: left = (done ++ [frame]) ++ left := by simp
        rw [hsame] at hsplit hshown
        exact .decoding hcovers hsplit hshown hlong
      have hcommits : commitsFrom p.number (entryCount front) (before ++ done)
          ++ [commitAt p.number (entryCount (front ++ before ++ done)) frame]
          = commitsFrom p.number (entryCount front) (before ++ (done ++ [frame])) := by
        rw [← List.append_assoc, commitsFrom_append _ _ (before ++ done), List.append_assoc front,
          entryCount_append front]
        rfl
      rw [Partition.locationsBehind_cons, Stage.next, hread]
      simp only [hcommits]
      simp only [List.append_assoc, List.singleton_append] at hdecoding ⊢
      exact hdecoding
  | ended hcovers => exact .ended hcovers

/-! ## Runs -/

/-- A partition that is read from while it is written to, with the tail that it had when the read
began. -/
structure Watched (maxField maxWindow file first : Nat) (scene : Scene) (frames : List Frame) :
    Prop where
  kept : Kept maxField file scene frames
  sees : Sees scene.p.number maxWindow file scene.request frames scene.loaded scene.stage
  first_le : first ≤ scene.p.tailOffset
  loaded : ∀ tail, scene.loaded = some tail → first ≤ tail
  looks : scene.looks + scene.stage.left scene.request.count ≤ 3 * scene.request.count + 6

theorem entryCount_le {front frames : List Frame} (h : front <+: frames) :
    entryCount front ≤ entryCount frames := by
  obtain ⟨later, rfl⟩ := h
  rw [entryCount_append]
  exact Nat.le_add_right ..

namespace Watched

variable {first : Nat} (h : Watched maxField maxWindow file first scene frames)

include h

/-- The reader has taken a step. -/
theorem look (hgoesOn : scene.stage.GoesOn) :
    Watched maxField maxWindow file first (scene.look maxField maxWindow) frames where
  kept := h.kept.look
  sees := h.sees.next h.kept.shows
  first_le := h.first_le
  loaded tail htail := by
    cases hstage : scene.stage with
    | called =>
      simp only [Scene.look, hstage, Option.some.injEq] at htail
      rw [← htail]
      exact h.first_le
    | _ =>
      simp only [Scene.look, hstage] at htail
      exact h.loaded tail htail
  looks := by
    have hlt := left_next_lt scene.request maxField maxWindow scene.p scene.disk hgoesOn
    have hlooks := h.looks
    show scene.looks + 1 + _ ≤ _
    simp only [Scene.look]
    omega

/-- The writer has taken a step, which leaves the reader alone. -/
theorem write {later : List Frame} (hkept : Kept maxField file last later)
    (hmore : frames <+: later) (hnumber : last.p.number = scene.p.number)
    (hrequest : last.request = scene.request) (hstage : last.stage = scene.stage)
    (hloaded : last.loaded = scene.loaded) (hlooks : last.looks = scene.looks) :
    Watched maxField maxWindow file first last later where
  kept := hkept
  sees := by
    rw [hnumber, hrequest, hstage, hloaded]
    exact h.sees.mono hmore
  first_le := by
    have hle := h.first_le
    have hcount := entryCount_le hmore
    rw [h.kept.tailOffset] at hle
    rw [hkept.tailOffset]
    omega
  loaded := by
    rw [hloaded]
    exact h.loaded
  looks := by
    rw [hlooks, hstage, hrequest]
    exact h.looks

theorem step (hstep : Step maxField maxWindow durable scene last) :
    ∃ later, Watched maxField maxWindow file first last later ∧ last.request = scene.request := by
  obtain ⟨later, hkept, hmore⟩ := h.kept.step hstep
  cases hstep with
  | looks hgoesOn => exact ⟨frames, h.look hgoesOn, rfl⟩
  | _ => exact ⟨later, h.write hkept hmore rfl rfl rfl rfl rfl, rfl⟩

theorem leads (hleads : Leads maxField maxWindow durable scene last) :
    ∃ later, Watched maxField maxWindow file first last later ∧ last.request = scene.request := by
  induction hleads with
  | refl => exact ⟨frames, h, rfl⟩
  | tail _ hstep ih =>
    obtain ⟨mid, hmid, hsame⟩ := ih
    obtain ⟨later, hlater, hrequest⟩ := hmid.step hstep
    exact ⟨later, hlater, hrequest.trans hsame⟩

end Watched

/-! ## From frames to commits -/

/-- The start of a commit, or the tail. -/
def Scene.IsBoundary (scene : Scene) (start : Revision) : Prop :=
  start.offset.toNat = scene.p.tailOffset ∨
    ∃ commit ∈ scene.commits, commit.expected.offset = start.offset

/-- Whether a commit starts where a read does or behind it, and in front of a tail. -/
def Request.asksFor (request : Request) (tail : Nat) (commit : RawCommit) : Bool :=
  request.start.offset.toNat ≤ commit.expected.offset.toNat &&
    commit.expected.offset.toNat < tail

/-- The commits from the start that is asked for up to a tail, as many as are asked for. -/
def commitsBetween (commits : List RawCommit) (request : Request) (tail : Nat) : List RawCommit :=
  (commits.filter (request.asksFor tail)).take request.count

theorem asksFor_iff {tail : Nat} {commit : RawCommit} :
    request.asksFor tail commit = true ↔
      request.start.offset.toNat ≤ commit.expected.offset.toNat ∧
        commit.expected.offset.toNat < tail := by
  simp [Request.asksFor]

theorem toNat_ofNat_of_le {n : Nat} (h : n ≤ maxFileLength) : (UInt64.ofNat n).toNat = n := by
  have hmax : maxFileLength = 2 ^ 63 - 1 := rfl
  rw [UInt64.toNat_ofNat']
  omega

/-- The commits of a row of frames start behind what is in front of them, and in front of their
end. -/
theorem offset_of_mem_commitsFrom {number : UInt32} {start : Nat} {commit : RawCommit}
    (hentries : ∀ frame ∈ frames, frame.entries ≠ [])
    (hroom : start + entryCount frames ≤ maxFileLength)
    (h : commit ∈ commitsFrom number start frames) :
    start ≤ commit.expected.offset.toNat ∧
      commit.expected.offset.toNat < start + entryCount frames := by
  induction frames generalizing start with
  | nil => cases h
  | cons frame later ih =>
    have hpos := List.length_pos_iff.2 (hentries frame List.mem_cons_self)
    rw [entryCount_cons] at hroom ⊢
    rcases List.mem_cons.1 h with rfl | h
    · have hstart : start ≤ maxFileLength := by omega
      show start ≤ (UInt64.ofNat start).toNat ∧ (UInt64.ofNat start).toNat < _
      rw [toNat_ofNat_of_le hstart]
      omega
    · have hlater := ih (fun x hx => hentries x (List.mem_cons_of_mem _ hx)) (by omega) h
      omega

namespace Kept

variable (h : Kept maxField file scene frames)

include h

theorem entryCount_le_max : entryCount frames ≤ maxFileLength :=
  Nat.le_trans (Partition.entryCount_le_length frames) h.room

/-- A boundary has frames in front of it. -/
theorem exists_front {start : Revision} (hstart : scene.IsBoundary start) :
    ∃ front, front <+: frames ∧ entryCount front = start.offset.toNat := by
  rcases hstart with hstart | ⟨commit, hcommit, hstart⟩
  · exact ⟨frames, List.prefix_rfl, by rw [hstart, h.tailOffset]⟩
  · rw [h.commits] at hcommit
    obtain ⟨k, hk⟩ := List.mem_iff_getElem?.1 hcommit
    rw [Partition.getElem?_commitsFrom] at hk
    obtain ⟨frame, -, rfl⟩ := Option.map_eq_some_iff.1 hk
    refine ⟨frames.take k, List.take_prefix k frames, ?_⟩
    have hle := Nat.le_trans (entryCount_le (List.take_prefix k frames)) h.entryCount_le_max
    rw [Nat.zero_add] at hstart
    rw [← hstart]
    exact (toNat_ofNat_of_le hle).symm

/-- What a reader has covered are the commits between its start and the tail that it has loaded. -/
theorem commitsBetween_of_covers (hcovers : Covers request frames front mid reached) :
    commitsBetween scene.commits request (entryCount (front ++ mid))
      = commitsFrom scene.p.number (entryCount front) (mid.take request.count) := by
  have hroom := h.entryCount_le_max
  have hentries := h.shows.entries_ne
  have hcommits := h.commits
  obtain ⟨rest, rfl⟩ := hcovers.isPrefix
  rw [entryCount_append, entryCount_append] at hroom
  rw [commitsFrom_append, commitsFrom_append, Nat.zero_add, Nat.zero_add, entryCount_append]
    at hcommits
  have hfront : (commitsFrom scene.p.number 0 front).filter
      (request.asksFor (entryCount (front ++ mid))) = [] := by
    rw [List.filter_eq_nil_iff]
    intro commit hcommit
    have hoffset := offset_of_mem_commitsFrom
      (fun x hx => hentries x (List.mem_append_left _ (List.mem_append_left _ hx)))
      (by omega) hcommit
    rw [asksFor_iff, ← hcovers.start]
    omega
  have hmid : (commitsFrom scene.p.number (entryCount front) mid).filter
      (request.asksFor (entryCount (front ++ mid)))
      = commitsFrom scene.p.number (entryCount front) mid := by
    rw [List.filter_eq_self]
    intro commit hcommit
    have hoffset := offset_of_mem_commitsFrom
      (fun x hx => hentries x (List.mem_append_left _ (List.mem_append_right _ hx)))
      (by omega) hcommit
    rw [asksFor_iff, ← hcovers.start, entryCount_append]
    omega
  have hrest : (commitsFrom scene.p.number (entryCount front + entryCount mid) rest).filter
      (request.asksFor (entryCount (front ++ mid))) = [] := by
    rw [List.filter_eq_nil_iff]
    intro commit hcommit
    have hoffset := offset_of_mem_commitsFrom
      (fun x hx => hentries x (List.mem_append_right _ hx)) (by omega) hcommit
    rw [asksFor_iff, entryCount_append]
    omega
  rw [commitsBetween, hcommits, List.filter_append, List.filter_append, hfront, hmid, hrest,
    List.nil_append, List.append_nil, Partition.commitsFrom_take]

end Kept

/-! ## Reading -/

/-- A read begins. -/
theorem Kept.call (h : Kept maxField file scene frames) (hstart : scene.IsBoundary request.start) :
    Watched maxField maxWindow file scene.p.tailOffset (scene.call request) frames := by
  obtain ⟨front, hfront, hcount⟩ := h.exists_front hstart
  refine ⟨⟨h.resolve, h.size, h.handle, h.isCommit, h.commits, h.tailOffset, h.room, h.together⟩,
    .called hfront hcount rfl, Nat.le_refl _, nofun, ?_⟩
  show 0 + (3 * request.count + 6) ≤ 3 * request.count + 6
  omega

/-- **A reader sees whole commits only, whatever the writer does meanwhile.** It begins at any time,
with the start of a commit or the tail of that time. Either it has ended, and has given the commits
from there up to the tail that it has loaded, as many as were asked for and each as it was committed;
or it can go on, and has not taken many steps yet. -/
theorem reads_whole_commits {place : Disk.Place} {begun : Scene} (hholds : p.Holds disk place frames)
    (hsound : disk.Sound) (hhandle : p.handle.isSome)
    (hframes : ∀ frame ∈ frames, IsCommit maxField frame)
    (hbefore : Leads maxField maxWindow durable (.ofPartition p disk frames) begun)
    (hstart : begun.IsBoundary request.start)
    (hafter : Leads maxField maxWindow durable (begun.call request) last) :
    (∃ tail, last.loaded = some tail ∧ begun.p.tailOffset ≤ tail ∧ tail ≤ last.p.tailOffset ∧
      last.stage = .ended (.ok (commitsBetween last.commits request tail))) ∨
    (last.stage.GoesOn ∧ last.looks < 3 * request.count + 6) := by
  obtain ⟨file, hopened⟩ := kept_of_holds hholds hsound hhandle hframes
  obtain ⟨earlier, hbegun, -⟩ := hopened.leads hbefore
  obtain ⟨later, hlast, hsame⟩ := (hbegun.call hstart).leads hafter
  obtain rfl : last.request = request := hsame
  have hsees := hlast.sees
  have hgoesOn : last.stage.GoesOn → last.looks < 3 * last.request.count + 6 := by
    intro hgoesOn
    have hleft := left_next_lt last.request maxField maxWindow p disk hgoesOn
    have hlooks := hlast.looks
    omega
  cases hstage : last.stage with
  | idle =>
    rw [hstage] at hsees
    cases hsees
  | ended answer =>
    rw [hstage] at hsees
    cases hsees with
    | ended hcovers =>
      refine .inl ⟨_, hcovers.reached, hlast.loaded _ hcovers.reached, ?_, ?_⟩
      · rw [hlast.kept.tailOffset]
        exact entryCount_le hcovers.isPrefix
      · rw [hlast.kept.commitsBetween_of_covers hcovers]
  | _ =>
    rw [hstage] at hgoesOn
    exact .inr ⟨trivial, hgoesOn trivial⟩

/-- An attempt that finds room is committed, wherever the reader is. -/
theorem exists_commit {place : Disk.Place} {attempt : RawAttempt} (env : Env)
    (hholds : scene.p.Holds env.disk place frames) (hsound : env.disk.Sound)
    (hreliable : env.disk.Reliable) (hdisk : env.disk = scene.disk)
    (hidle : scene.writing = none) (hhandle : scene.p.handle = some (.file file))
    (hexpected : attempt.expected = scene.p.tail)
    (hcommit : (Partition.frameOf attempt env.ids.next.1 env.now).IsCommit maxField)
    (hroom : Partition.HasRoom frames attempt env) :
    ∃ after disk, disk.Sound ∧ disk.Reliable ∧ after.number = scene.p.number ∧
      after.Holds disk place (frames ++ [Partition.frameOf attempt env.ids.next.1 env.now]) ∧
      Leads maxField maxWindow durable scene
        { scene with
          p := after
          disk
          commits := scene.commits ++ [Partition.commitOf attempt env.ids.next.1 env.now] } := by
  obtain ⟨after, later, hrun, hnumber, -, hkeeps, -, hafter⟩ :=
    Partition.append_of_room hholds hsound hreliable durable attempt hexpected hhandle hroom
  exact ⟨after, later.disk, hkeeps.sound, hkeeps.reliable, hnumber, hafter,
    leads_append hidle hdisk hcommit hrun⟩

/-- The second commit of a new partition is made when the reader has loaded the tail already, and
the read goes on as if it were not there. -/
theorem reads_whole_commits_of_commit_between_looks : ∃ disk begun grown last first second,
    Leads 4194304 4096 false (.ofPartition Topic.newPartition disk []) begun ∧
      begun.commits = [first] ∧
      Leads 4194304 4096 false ((begun.call ⟨.origin 0, 2⟩).look 4194304 4096) grown ∧
      grown.commits = [first, second] ∧ Leads 4194304 4096 false grown last ∧
      last.stage = .ended (.ok [first]) := by
  let attempt (offset : UInt64) : RawAttempt := { Topic.firstAttempt with expected := ⟨0, offset⟩ }
  let frame (offset : UInt64) : Frame :=
    Partition.frameOf (attempt offset) ({} : Env).ids.next.1 0
  let commit (offset : UInt64) : RawCommit :=
    Partition.commitOf (attempt offset) ({} : Env).ids.next.1 0
  obtain ⟨topic, disk, hnew⟩ := Topic.exists_isNew
  obtain ⟨folder, hagrees⟩ := hnew.agrees
  have hmem : Topic.newPartition ∈ topic.partitions := by
    rw [hnew.partitions]
    exact List.mem_singleton_self _
  have hholds : Topic.newPartition.Holds disk _ [] := hagrees.holds.partition _ hmem
  have hcommit : ∀ offset, (frame offset).IsCommit 4194304 := by
    intro offset
    refine ⟨?_, List.cons_ne_nil _ _⟩
    show ∀ field ∈ Topic.firstAttempt.key :: Topic.firstAttempt.entries,
      field.length ≤ min 4194304 Frame.maxFieldLength
    decide
  have hlength : ∀ offset, (frame offset).encode.length = 42 := by
    intro offset
    rw [Frame.length_encode_eq]
    rfl
  have hroom : Partition.HasRoom [] (attempt 0) { disk } := by
    show (encodeAll []).length + (frame 0).encode.length ≤ maxFileLength
    rw [hlength]
    decide
  let start : Scene := .ofPartition Topic.newPartition disk []
  obtain ⟨p, written, hsound, hreliable, hnumber, hone, hfirst⟩ :
      ∃ p written, _ ∧ _ ∧ _ ∧ _ ∧ Leads 4194304 4096 false start _ :=
    exists_commit { disk } hholds hagrees.sound hagrees.reliable rfl rfl rfl rfl (hcommit 0) hroom
  rw [List.nil_append] at hone
  let begun : Scene := { start with p, disk := written, commits := [commit 0] }
  let request : Request := ⟨.origin 0, 2⟩
  have htail : p.tailOffset = 1 := hone.tailOffset
  have hexpected : (attempt 1).expected = p.tail := by
    rw [Partition.tail, htail, hnumber]
    rfl
  obtain ⟨file, hopened⟩ := kept_of_holds hholds hagrees.sound rfl (List.forall_mem_nil _)
  obtain ⟨earlier, hkept, -⟩ := hopened.leads hfirst
  have hlater : Partition.HasRoom [frame 0] (attempt 1) { disk := written } := by
    show (encodeAll [frame 0]).length + (frame 1).encode.length ≤ maxFileLength
    rw [encodeAll_cons, List.length_append, hlength, hlength]
    decide
  -- the reader has loaded the tail when the writer comes
  obtain ⟨grownP, grownDisk, -, -, -, -, hsecond⟩ :
      ∃ grownP grownDisk, _ ∧ _ ∧ _ ∧ _ ∧
        Leads 4194304 4096 false ((begun.call request).look 4194304 4096) _ :=
    exists_commit { disk := written } hone hsound hreliable rfl rfl hkept.handle hexpected
      (hcommit 1) hlater
  let grown : Scene :=
    { (begun.call request).look 4194304 4096 with
      p := grownP
      disk := grownDisk
      commits := [commit 0, commit 1] }
  obtain ⟨last, hlast, hended, hcommits, hloaded⟩ := exists_ended 4194304 4096 false grown
  have hafter : Leads 4194304 4096 false (begun.call request) last :=
    .head (.looks trivial) (hsecond.trans hlast)
  have hstart : begun.IsBoundary request.start := .inr ⟨_, List.mem_singleton_self _, rfl⟩
  refine ⟨disk, begun, grown, last, _, _, hfirst, rfl, hsecond, rfl, hlast, ?_⟩
  rcases reads_whole_commits hholds hagrees.sound rfl (List.forall_mem_nil _) hfirst hstart
    hafter with ⟨tail, hreached, -, -, hstage⟩ | ⟨hgoesOn, -⟩
  · obtain rfl : tail = 1 := by
      have hsame : some tail = some p.tailOffset :=
        hreached.symm.trans (hloaded fun hcalled => by cases hcalled)
      exact (Option.some.inj hsame).trans htail
    rw [hstage, hcommits]
    rfl
  · exact absurd hgoesOn hended

end CommitLog.Reading
