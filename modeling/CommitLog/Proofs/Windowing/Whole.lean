import CommitLog.Proofs.Partition.Read
import CommitLog.Proofs.Windowing.Machine

/-!
# Windows partition the frames and keep to the limit

Where the frames of an index lie one after another, reading by index comes to the same windows as
`Window.group` and ends with the same answer as `Partition.read`; no step counts backwards, none asks
for a frame that is not there, and every frame lies inside its window
(`windows_partition_and_fit`).

`Follows` says for every stage of a walk what it has done: the complete windows are those in front of
the ones that are left to be grouped, and the window in hand (`InHand`) has taken all frames that it
has looked at.
-/

namespace CommitLog.Windowing

open CommitLog.Partition (Location Window InRow)
open CommitLog.Windowing.Stretch (Shows)

variable {p : Partition} {maxField limit : Nat} {data : Bytes} {locs more later : List Location}
  {first loc : Location} {window : Stretch} {done ahead : List Window} {walk : Walk}

/-! ## The window in hand -/

/-- The window in hand holds its first frame and all that it has looked at since, each of which was
admitted. The others are later. -/
structure InHand (limit : Nat) (locs : List Location) (window : Stretch) (first : Location)
    (more later : List Location) : Prop where
  rest : locs.drop window.first = first :: (more ++ later)
  stop : window.stop = window.first + (more.length + 1)
  pos : window.pos = first.pos
  endPos : window.endPos = (more.getLastD first).endPos
  admitted : ∀ loc ∈ more, Window.admits limit first.pos loc = true

namespace InHand

theorem start {i : Nat} (h : locs.drop i = first :: later) :
    InHand limit locs ⟨i, i + 1, first.pos, first.endPos⟩ first [] later where
  rest := h
  stop := rfl
  pos := rfl
  endPos := rfl
  admitted := fun _ hloc => absurd hloc List.not_mem_nil

variable (h : InHand limit locs window first more later)

include h

theorem drop_stop : locs.drop window.stop = later := by
  rw [h.stop, ← List.drop_drop, h.rest, List.drop_succ_cons, List.drop_left' rfl]

theorem getElem?_stop : locs[window.stop]? = later.head? := by
  rw [← h.drop_stop, List.head?_drop]

theorem frames : window.frames locs = first :: more := by
  have hcount : window.stop - window.first = more.length + 1 := by
    have hstop := h.stop
    omega
  rw [Stretch.frames, List.extract_eq_take_drop, hcount, h.rest, List.take_succ_cons,
    List.take_left' rfl]

theorem shows : Shows locs window ⟨first, more⟩ := ⟨h.frames, h.pos, h.endPos⟩

theorem stop_le : window.stop ≤ locs.length := by
  have hlength := congrArg List.length h.rest
  rw [List.length_drop, List.length_cons, List.length_append] at hlength
  have hstop := h.stop
  omega

/-- One more frame that is admitted. -/
theorem grow {next : Location} {behind : List Location} (hlater : later = next :: behind)
    (hadmits : Window.admits limit first.pos next = true) :
    InHand limit locs (window.grow next) first (more ++ [next]) behind where
  rest := by rw [Stretch.grow, h.rest, hlater, List.append_assoc, List.singleton_append]
  stop := by
    have hstop := h.stop
    simp only [Stretch.grow, List.length_append, List.length_singleton]
    omega
  pos := h.pos
  endPos := by rw [List.getLastD_concat]; rfl
  admitted := by
    intro x hx
    rcases List.mem_append.1 hx with hx | hx
    · exact h.admitted x hx
    · obtain rfl := List.mem_singleton.1 hx
      exact hadmits

/-- Where the next frame does not fit in, the window is the first of those that are left. -/
theorem group_drop (hnext : ∀ next ∈ later.head?, Window.admits limit first.pos next = false) :
    Window.group limit (locs.drop window.first)
      = ⟨first, more⟩ :: Window.group limit (locs.drop window.stop) := by
  have htake : later.takeWhile (Window.admits limit first.pos) = [] := by
    cases later with
    | nil => rfl
    | cons next _ => exact List.takeWhile_cons_of_neg (by simp [hnext next rfl])
  have hdrop : later.dropWhile (Window.admits limit first.pos) = later := by
    cases later with
    | nil => rfl
    | cons next _ => exact List.dropWhile_cons_of_neg (by simp [hnext next rfl])
  rw [h.rest, Window.group, List.takeWhile_append_of_pos h.admitted,
    List.dropWhile_append_of_pos h.admitted, htake, hdrop, List.append_nil, h.drop_stop]

theorem inRow (hrow : InRow locs) : InRow (first :: (more ++ later)) :=
  h.rest ▸ hrow.sublist (List.drop_sublist ..)

/-- No later frame ends in front of the window. -/
theorem pos_le_endPos (hrow : InRow locs) (hloc : loc ∈ later) : window.pos ≤ loc.endPos := by
  rw [h.pos]
  have hmem : loc ∈ first :: (more ++ later) :=
    List.mem_cons_of_mem _ (List.mem_append_right _ hloc)
  exact Nat.le_trans ((h.inRow hrow).pos_le hmem) loc.pos_le_endPos

end InHand

/-! ## What a walk has done -/

/-- The commits of windows that are read one after another. -/
def readAll (p : Partition) (maxField : Nat) (data : Bytes) (windows : List Window) :
    Except LogError (List RawCommit) :=
  (windows.mapM (p.readWindow maxField data)).map List.flatten

theorem exists_of_readAll {commits : List RawCommit}
    (h : readAll p maxField data done = .ok commits) :
    ∃ lists, done.mapM (p.readWindow maxField data) = .ok lists ∧ commits = lists.flatten := by
  unfold readAll at h
  cases hlists : done.mapM (p.readWindow maxField data) with
  | error failure =>
    rw [hlists] at h
    cases h
  | ok lists =>
    rw [hlists] at h
    exact ⟨lists, rfl, (Except.ok.inj h).symm⟩

theorem readAll_concat_ok {commits found : List RawCommit} {next : Window}
    (hdone : readAll p maxField data done = .ok commits)
    (hnext : p.readWindow maxField data next = .ok found) :
    readAll p maxField data (done ++ [next]) = .ok (commits ++ found) := by
  obtain ⟨lists, hlists, rfl⟩ := exists_of_readAll hdone
  rw [readAll, List.mapM_append, hlists, List.mapM_cons, hnext, List.mapM_nil]
  simp [bind, Except.bind, pure, Except.pure, Except.map]

theorem readAll_of_error {commits : List RawCommit} {next : Window} {failure : LogError}
    (ahead : List Window) (hdone : readAll p maxField data done = .ok commits)
    (hnext : p.readWindow maxField data next = .error failure) :
    readAll p maxField data (done ++ next :: ahead) = .error failure := by
  obtain ⟨lists, hlists, rfl⟩ := exists_of_readAll hdone
  rw [readAll, List.mapM_append, hlists, List.mapM_cons, hnext]
  rfl

/-- The complete windows of a walk are these, and their commits have been read. -/
structure Done (p : Partition) (maxField : Nat) (data : Bytes) (locs : List Location) (walk : Walk)
    (done : List Window) : Prop where
  shown : List.Forall₂ (Shows locs) walk.windows done
  read : readAll p maxField data done = .ok walk.commits

/-- What is true of a walk at every stage. -/
inductive Follows (p : Partition) (maxField limit : Nat) (data : Bytes) (locs : List Location)
    (walk : Walk) : Prop where
  | between {i : Nat} {done : List Window} (stage : walk.stage = .between i)
      (hdone : Done p maxField data locs walk done)
      (group : Window.group limit locs = done ++ Window.group limit (locs.drop i))
  | growing {window : Stretch} {first : Location} {more later : List Location} {done : List Window}
      (stage : walk.stage = .growing window) (hdone : Done p maxField data locs walk done)
      (group : Window.group limit locs = done ++ Window.group limit (locs.drop window.first))
      (inHand : InHand limit locs window first more later)
  | ended {done ahead : List Window}
      (stage : walk.stage = .ended (readAll p maxField data (Window.group limit locs)))
      (shown : List.Forall₂ (Shows locs) walk.windows done)
      (group : Window.group limit locs = done ++ ahead)
      (all : ahead = [] ∨ ∃ failure,
        readAll p maxField data (Window.group limit locs) = .error failure)

theorem follows_start : Follows p maxField limit data locs {} :=
  .between rfl ⟨List.Forall₂.nil, rfl⟩ rfl

/-- A window that is shown is read as it is, and none of its places are counted backwards. -/
theorem finish_of_shows {found : Window} (hrow : InRow found.frames)
    (hshows : Shows locs window found) (hstop : window.first ≤ window.stop)
    (hrange : window.stop ≤ locs.length) :
    walk.finish p maxField data locs window
      = match p.readWindow maxField data found with
        | .error failure => { walk with
            windows := walk.windows ++ [window], stage := .ended (.error failure) }
        | .ok commits => {
            windows := walk.windows ++ [window]
            commits := walk.commits ++ commits
            stage := .between window.stop } := by
  have hend : found.first.endPos ≤ found.endPos := hrow.endPos_le List.mem_cons_self
  have hforward : ¬ found.endPos < found.pos :=
    Nat.not_lt.2 (Nat.le_trans found.first.pos_le_endPos hend)
  have hindices : ¬ (window.stop < window.first ∨ locs.length < window.stop) := by omega
  have hinside : ¬ (found.frames.any fun loc => loc.pos < found.pos) = true := by
    rw [List.any_eq_true]
    rintro ⟨loc, hloc, hlt⟩
    exact Nat.not_lt.2 (hrow.within hloc).1 (of_decide_eq_true hlt)
  unfold Walk.finish Partition.readWindow
  simp only [Stretch.bytes, hshows.frames, hshows.pos, hshows.endPos]
  by_cases hshort : data.length < found.endPos
  · rw [if_pos hshort, if_pos hshort]
    rfl
  · rw [if_neg hshort, if_neg hforward, if_neg hindices, if_neg hinside, if_neg hshort]
    cases found.frames.mapM (p.readFrame maxField
      ((data.drop found.pos).take (found.endPos - found.pos)) found.pos) <;> rfl

/-- A window that takes no further frame is read, and the next begins behind it. -/
theorem follows_finish (hrow : InRow locs) (hdone : Done p maxField data locs walk done)
    (hgroup : Window.group limit locs = done ++ Window.group limit (locs.drop window.first))
    (hinHand : InHand limit locs window first more later)
    (hnext : ∀ next ∈ later.head?, Window.admits limit first.pos next = false) :
    Follows p maxField limit data locs (walk.finish p maxField data locs window) := by
  rw [hinHand.group_drop hnext] at hgroup
  have hframes : InRow (Window.frames ⟨first, more⟩) :=
    (hinHand.inRow hrow).sublist ((List.sublist_append_left more later).cons_cons first)
  have hstop := hinHand.stop
  rw [finish_of_shows hframes hinHand.shows (by omega) hinHand.stop_le]
  have hshown : List.Forall₂ (Shows locs) (walk.windows ++ [window]) (done ++ [⟨first, more⟩]) :=
    List.rel_append hdone.shown (.cons hinHand.shows .nil)
  have hcomplete : Window.group limit locs
      = (done ++ [⟨first, more⟩]) ++ Window.group limit (locs.drop window.stop) := by
    rw [hgroup, List.append_assoc, List.singleton_append]
  cases hread : p.readWindow maxField data ⟨first, more⟩ with
  | error failure =>
    have hall := readAll_of_error (Window.group limit (locs.drop window.stop)) hdone.read hread
    rw [← hgroup] at hall
    exact .ended (by rw [hall]) hshown hcomplete (.inr ⟨failure, hall⟩)
  | ok found => exact .between rfl ⟨hshown, readAll_concat_ok hdone.read hread⟩ hcomplete

/-- **What is true of a walk stays true with every step.** -/
theorem Follows.step (h : Follows p maxField limit data locs walk) (hrow : InRow locs) :
    Follows p maxField limit data locs (walk.step p maxField limit data locs) := by
  unfold Walk.step
  cases h with
  | @between i done stage hdone group =>
    rw [stage]
    simp only [Walk.start]
    cases hloc : locs[i]? with
    | none =>
      have hrest : locs.drop i = [] := List.drop_eq_nil_of_le (List.getElem?_eq_none_iff.1 hloc)
      rw [hrest, Window.group] at group
      refine .ended ?_ hdone.shown group (.inl rfl)
      rw [group, List.append_nil, hdone.read]
      rfl
    | some first =>
      obtain ⟨hlt, rfl⟩ := List.getElem?_eq_some_iff.1 hloc
      exact .growing rfl ⟨hdone.shown, hdone.read⟩ group
        (InHand.start (List.drop_eq_getElem_cons hlt))
  | @growing window first more later done stage hdone group inHand =>
    rw [stage]
    simp only [Walk.look, inHand.getElem?_stop]
    cases hlater : later with
    | nil => exact follows_finish hrow hdone group inHand (by simp [hlater])
    | cons next behind =>
      have hplace : window.pos ≤ next.endPos :=
        inHand.pos_le_endPos hrow (hlater ▸ List.mem_cons_self)
      simp only [List.head?_cons]
      rw [if_neg (Nat.not_lt.2 hplace), inHand.pos]
      split
      next hover =>
        refine follows_finish hrow hdone group inHand ?_
        intro x hx
        rw [hlater] at hx
        obtain rfl := Option.some.inj hx
        exact decide_eq_false (Nat.not_le.2 hover)
      next hfits =>
        exact .growing rfl ⟨hdone.shown, hdone.read⟩ group
          (inHand.grow hlater (decide_eq_true (Nat.not_lt.1 hfits)))
  | ended stage shown group all =>
    rw [stage]
    exact .ended stage shown group all

theorem follows_after (hrow : InRow locs) (n : Nat) :
    Follows p maxField limit data locs (Walk.after p maxField limit data locs n) := by
  induction n with
  | zero => exact follows_start
  | succ n ih =>
    rw [Walk.after, Function.iterate_succ_apply']
    exact ih.step hrow

/-- When all its steps are taken, a walk has ended with the answer of its windows, and has formed all
of them unless one could not be read. -/
theorem ended_after_all (p : Partition) (maxField limit : Nat) (data : Bytes) (hrow : InRow locs) :
    (Walk.after p maxField limit data locs (2 * locs.length + 1)).stage
        = .ended (readAll p maxField data (Window.group limit locs)) ∧
      ∀ commits, readAll p maxField data (Window.group limit locs) = .ok commits →
        List.Forall₂ (Shows locs)
          (Walk.after p maxField limit data locs (2 * locs.length + 1)).windows
          (Window.group limit locs) := by
  have hleft := left_after_all p maxField limit data locs
  cases follows_after hrow (2 * locs.length + 1) with
  | between stage =>
    rw [stage] at hleft
    cases hleft
  | growing stage =>
    rw [stage] at hleft
    cases hleft
  | ended stage shown group all =>
    refine ⟨stage, fun commits hread => ?_⟩
    rcases all with rfl | ⟨failure, hfails⟩
    · rw [group, List.append_nil]
      exact shown
    · rw [hread] at hfails
      cases hfails

/-- The windows of a walk are the first of the windows that the frames are grouped into. -/
theorem Follows.exists_front (h : Follows p maxField limit data locs walk) :
    ∃ front, front <+: Window.group limit locs ∧
      List.Forall₂ (Shows locs) walk.windows front := by
  cases h with
  | between _ hdone group => exact ⟨_, ⟨_, group.symm⟩, hdone.shown⟩
  | growing _ hdone group _ => exact ⟨_, ⟨_, group.symm⟩, hdone.shown⟩
  | ended _ shown group _ => exact ⟨_, ⟨_, group.symm⟩, shown⟩

theorem Follows.not_broken (h : Follows p maxField limit data locs walk) (fault : Fault) :
    walk.stage ≠ .broken fault := by
  cases h with
  | between stage => simp [stage]
  | growing stage => simp [stage]
  | ended stage => simp [stage]

/-! ## All together -/

/-- The frames of a partition are in a row where its file and its index tell of the same frames. -/
theorem inRow_of_holds {disk : Disk} {place : Disk.Place} {frames : List Frame}
    (h : p.Holds disk place frames) : InRow p.frames :=
  h.index ▸ Partition.inRow_locate ..

/-- Reading by index ends with the answer of a read. -/
theorem stage_after_all_eq_read {disk : Disk} {start : Revision} {count : Nat}
    (hrow : InRow p.frames) (hread : disk.read p.path = .ok data)
    (hbefore : start.offset.toNat < p.tailOffset) (hcount : count ≠ 0)
    (hframe : p.hasFrameAt start.offset.toNat = true) :
    let locs := p.framesFrom start.offset.toNat count
    (Walk.after p maxField limit data locs (2 * locs.length + 1)).stage
      = .ended (p.read disk maxField limit start count) := by
  intro locs
  have hanswer : p.read disk maxField limit start count
      = readAll p maxField data (Window.group limit locs) := by
    simp only [Partition.read, hread, hframe, Bool.not_true, Bool.false_eq_true, if_false]
    rw [if_neg (Nat.lt_asymm hbefore), if_neg (by omega)]
    rfl
  rw [hanswer]
  exact (ended_after_all p maxField limit data
    (hrow.sublist (Partition.framesFrom_sublist ..))).1

/-- **Windows partition the frames that are read, and keep to the limit.** Let the frames of an index
lie one after another. Any of them, in their order, are grouped into windows that hold each of them
once and in order; a window begins with a frame and ends with one, takes up no more than the limit
unless it has one frame, ends only where the next frame does not fit in, and every frame of it is
found in its bytes. Whatever the file holds, reading by index ends after two steps for each frame and
one more; it forms these very windows and no others, never counts a place from one behind it, and
never asks for a frame that is not there. No read of the partition finds a frame outside its
window. -/
theorem windows_partition_and_fit (hrow : InRow p.frames) (hlocs : locs.Sublist p.frames)
    (limit : Nat) :
    (Window.group limit locs).flatMap Window.frames = locs ∧
    (∀ window ∈ Window.group limit locs, window.Fits limit) ∧
    ((Window.group limit locs).IsChain fun window next =>
      limit < next.first.endPos - window.pos) ∧
    (∀ maxField data,
      (∀ n fault, (Walk.after p maxField limit data locs n).stage ≠ .broken fault) ∧
      (∀ n, ∃ front, front <+: Window.group limit locs ∧
        List.Forall₂ (Shows locs) (Walk.after p maxField limit data locs n).windows front) ∧
      (Walk.after p maxField limit data locs (2 * locs.length + 1)).stage
        = .ended (readAll p maxField data (Window.group limit locs)) ∧
      ∀ commits, readAll p maxField data (Window.group limit locs) = .ok commits →
        List.Forall₂ (Shows locs)
          (Walk.after p maxField limit data locs (2 * locs.length + 1)).windows
          (Window.group limit locs)) ∧
    ∀ disk maxField start count path place,
      p.read disk maxField limit start count ≠ .error (.corrupt path place .outsideWindow) := by
  have hthese : InRow locs := hrow.sublist hlocs
  refine ⟨Partition.flatMap_frames_group limit locs, ?_, Partition.isChain_group limit locs, ?_, ?_⟩
  · intro window hwindow
    exact hthese.fits_of_mem_group hwindow
  · intro maxField data
    refine ⟨?_, ?_, ended_after_all p maxField limit data hthese⟩
    · intro n
      exact (follows_after hthese n).not_broken
    · intro n
      exact (follows_after hthese n).exists_front
  · intro disk maxField start count path place
    exact Partition.read_ne_outsideWindow hrow disk maxField limit start count place

/-- Two frames that fill a window to the last byte, and a third that is longer than any window may
be. Seven steps lead through them, and no more commits come out than were stored. -/
theorem windows_partition_and_fit_of_long_frame :
    let frames : List Frame := [⟨⟨1, 2⟩, 3, [], [[7]]⟩, ⟨⟨4, 5⟩, 6, [], [[8]]⟩,
      ⟨⟨7, 8⟩, 9, [], [List.replicate 50 9]⟩]
    let p := Partition.recordAll { number := 0, path := ⟨["0"]⟩ } (Partition.locations frames)
    InRow p.frames ∧ p.frames.Sublist p.frames ∧
      Window.group 82 p.frames = [⟨⟨0, 0, 41, 1⟩, [⟨1, 41, 41, 1⟩]⟩, ⟨⟨2, 82, 90, 1⟩, []⟩] ∧
      (∀ window ∈ Window.group 82 p.frames, window.Fits 82) ∧
      (Walk.after p 50 82 (Partition.encodeAll frames) p.frames 7).stage
        = .ended (.ok (commitsFrom 0 0 frames)) ∧
      List.Forall₂ (Shows p.frames)
        (Walk.after p 50 82 (Partition.encodeAll frames) p.frames 7).windows
        (Window.group 82 p.frames) := by
  intro frames p
  have hp : p.frames = Partition.locations frames := by
    simp only [p, Partition.recordAll_locations]
  have hlocs : Partition.locations frames
      = [⟨0, 0, 41, 1⟩, ⟨1, 41, 41, 1⟩, ⟨2, 82, 90, 1⟩] := by decide
  have hrow : InRow p.frames := hp ▸ Partition.inRow_locate ..
  have hgroup : Window.group 82 p.frames
      = [⟨⟨0, 0, 41, 1⟩, [⟨1, 41, 41, 1⟩]⟩, ⟨⟨2, 82, 90, 1⟩, []⟩] := by
    rw [hp, hlocs]
    simp [Window.group, Window.admits, Location.endPos]
  have hread : readAll p 50 (Partition.encodeAll frames) (Window.group 82 p.frames)
      = .ok (commitsFrom 0 0 frames) := by
    have hcommits : ∀ frame ∈ frames, Frame.IsCommit 50 frame := by decide
    have hwindows := Partition.mapM_readWindow p 82 [] p.frames frames [] 0 hcommits hp
    rw [List.nil_append, List.append_nil] at hwindows
    exact hwindows
  obtain ⟨-, hfits, -, hwalk, -⟩ := windows_partition_and_fit hrow (List.Sublist.refl p.frames) 82
  obtain ⟨-, -, hended, hall⟩ := hwalk 50 (Partition.encodeAll frames)
  have hsteps : 2 * p.frames.length + 1 = 7 := by rw [hp, hlocs]; rfl
  rw [hsteps] at hended hall
  rw [hread] at hended
  exact ⟨hrow, List.Sublist.refl _, hgroup, hfits, hended, hall _ hread⟩

end CommitLog.Windowing
