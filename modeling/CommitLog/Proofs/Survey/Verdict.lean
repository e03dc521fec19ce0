import CommitLog.Proofs.Survey.Seen
import CommitLog.Proofs.Topic.New

/-!
# What verifying says beside a writer

Verifying is right just if none of its looks fell into the writing of a frame
(`verify_is_right_iff`): if no file was torn for a frame of which only a part had landed, if no frame
that a scan had missed was recorded before the tail was loaded, and if no frame that a scan had seen
was still to be recorded at the end. Nothing keeps a look from falling there: a frame is taken for
damage while it is being written (`half_written_frame_is_damage`), and for missing when it has been
recorded between the two looks (`later_frame_is_damage`).
-/

namespace CommitLog.Survey

open CommitLog.Disk (maxFileLength)
open CommitLog.Topic (Agrees Folder IsNew newPartition firstAttempt exists_isNew)

variable {config : Config} {folder : Folder} {scene : Scene} {topic : Topic} {env : Env}
  {commits : List RawCommit}

/-! ## A new topic -/

section

variable {disk : Disk} (h : IsNew topic disk)

include h

/-- The first attempt becomes a frame. -/
theorem begins_of_isNew : Step { topic, env := { disk } }
    (Scene.begin { topic, env := { disk } } firstAttempt 0 (.file 0)) := by
  have hpartition : topic.partition 0 = .ok newPartition := by
    unfold Topic.partition
    rw [h.partitions]
    rfl
  exact .begins rfl hpartition h.refusal rfl rfl

/-- The first attempt has become a frame, and one byte of it has landed. -/
theorem exists_half_written : ∃ scene writing, Leads { topic, env := { disk } } scene ∧
    scene.topic = topic ∧ scene.stage = .idle ∧ scene.writing = some writing ∧
    writing.number = 0 ∧ 0 < writing.landed ∧ writing.rest ≠ [] := by
  obtain ⟨folder, hagrees⟩ := h.agrees
  let begun : Scene := .begin { topic, env := { disk } } firstAttempt 0 (.file 0)
  obtain ⟨writing, hwriting, hfresh⟩ : ∃ writing, begun.writing = some writing ∧
    writing.landed = 0 ∧ writing.handle = .file 0 ∧ writing.number = 0 := ⟨_, rfl, rfl, rfl, rfl⟩
  obtain ⟨hlanded, hhandle, hnumber⟩ := hfresh
  have hlength : 1 < writing.frame.encode.length := by
    rw [Frame.length_encode_eq]
    simp only [Frame.headerSize, Frame.wordSize]
    omega
  have hcount : 1 ≤ writing.rest.length := by
    rw [Writing.rest, hlanded, List.drop_zero]
    exact Nat.le_of_lt hlength
  have hroom : (disk.content 0).length + (writing.rest.take 1).length ≤ maxFileLength := by
    rw [h.content, List.length_take, List.length_nil, Nat.zero_add]
    exact Nat.le_trans (Nat.min_le_left ..) (by decide)
  obtain ⟨after, happend, -⟩ := Disk.append_of_room hagrees.reliable h.file_lt hroom
  have hlands : Step begun (begun.write after (writing.land 1)) :=
    .lands hwriting hcount (by rw [hhandle]; exact happend)
  refine ⟨_, _, (Relation.ReflTransGen.single (begins_of_isNew h)).tail hlands, rfl, rfl, rfl, hnumber, ?_, ?_⟩
  · exact Nat.succ_pos _
  · show writing.frame.encode.drop (writing.landed + 1) ≠ []
    rw [hlanded, ne_eq, List.drop_eq_nil_iff]
    exact Nat.not_le.2 hlength

/-- A survey has scanned the file of the topic, which is empty. -/
theorem exists_scanned : ∃ scanned scan, Leads { topic, env := { disk } } scanned ∧
    scanned.topic = topic ∧ scanned.env = { disk } ∧ scanned.writing = none ∧
    scanned.stage = .comparing [] scan ∧ scan.entries = 0 ∧
    scanned.looks = [⟨0, 0, none, 0⟩] := by
  obtain ⟨folder, hagrees⟩ := h.agrees
  let start : Scene := { topic, env := { disk } }
  have hbegun : Leads start start.survey := .single (.surveys nofun)
  obtain ⟨_, _, hwatched⟩ := exists_watched hagrees hbegun
  have hp : topic.partitions[0]? = some newPartition := by
    rw [h.partitions]
    rfl
  obtain ⟨scan, hscan, htorn, hentries, -⟩ := hwatched.kept.scan (List.mem_of_getElem? hp)
  have hwhole : scan.torn = none := by
    rw [← Option.not_isSome_iff_eq_none, htorn]
    rintro ⟨_, hwriting, -⟩
    cases hwriting
  refine ⟨start.survey.survey, scan, hbegun.tail (.surveys nofun), rfl, rfl, rfl, ?_, hentries, ?_⟩
  · show Stage.next topic disk (.scanning []) = _
    simp only [Stage.next, List.length_nil, hp]
    rw [show Partition.scanFile disk _ topic.maxEntryBytes topic.maxMapBytes = .ok scan from hscan]
    simp only [hwhole]
  · show Scene.nextLooks { start.survey with stage := .scanning [] } = _
    simp only [Scene.nextLooks, List.length_nil, Scene.survey, start, hp]
    rfl

end

/-! ## The answer -/

/-- An answer is right if it is how far each partition reaches, at some time since the survey
began. -/
def IsRight (config : Config) (first last : Revisions) (answer : Except LogError Revisions) : Prop :=
  ∃ found, answer = .ok found ∧ ∀ number, number < config.partitions →
    (first.get number).offset ≤ (found.get number).offset ∧
      (found.get number).offset ≤ (last.get number).offset

/-- **Verifying is right just if no look fell into the writing of a frame**, and it reports damage
only where one did. -/
theorem verify_is_right_iff (h : Agrees config topic env.disk folder commits)
    (hleads : Leads { topic, env } scene) {answer : Except LogError Revisions}
    (hended : scene.stage = .ended answer) :
    (IsRight config scene.first scene.last answer ↔
      ∀ look ∈ scene.looks, look.IsFair scene.last) ∧
    ∀ failure, answer = .error failure → ∃ look ∈ scene.looks, look.Alarms failure := by
  obtain ⟨_, _, hwatched⟩ := exists_watched h hleads
  have hseen := hwatched.seen
  have hfits := hwatched.fits
  rw [hended] at hseen
  generalize hlooks : scene.looks = looks at hseen hfits ⊢
  cases hseen with
  | confirmed hconfirmed hall =>
    refine ⟨⟨?_, ?_⟩, nofun⟩
    · rintro ⟨_, hok, hright⟩ look hlook
      obtain rfl := Except.ok.inj hok
      have hlook' := hfits look hlook
      have hle := (hright look.number hlook'.lt).2
      rw [hconfirmed.get_ofList hlook, UInt64.le_iff_toNat_le, hlook'.toNat_revision] at hle
      exact ⟨hconfirmed.calm look hlook, Nat.not_lt.2 hle⟩
    · intro hfair
      refine ⟨_, rfl, fun number hnumber => ?_⟩
      obtain ⟨look, hlook, rfl⟩ := hconfirmed.exists_look hall hnumber
      have hlook' := hfits look hlook
      rw [hconfirmed.get_ofList hlook, UInt64.le_iff_toNat_le, UInt64.le_iff_toNat_le,
        hlook'.toNat_revision]
      exact ⟨Nat.le_trans hlook'.first_le (Nat.le_add_right ..), Nat.not_lt.1 (hfair look hlook).2⟩
  | @alarmed look earlier failure halarms =>
    refine ⟨⟨?_, ?_⟩, ?_⟩
    · rintro ⟨_, hok, -⟩
      cases hok
    · intro hfair
      have hcalm := (hfair look List.mem_cons_self).1
      cases halarms with
      | torn htorn => exact absurd htorn hcalm.1
      | overtaken hovertaken => exact absurd hovertaken hcalm.2
    · intro other hother
      obtain rfl := Except.error.inj hother
      exact ⟨look, List.mem_cons_self, halarms⟩

/-- A frame that is written and recorded after the only look. -/
theorem verify_is_right_of_later_frame : ∃ topic disk scene answer,
    Topic.recover {} ⟨["", ""]⟩ "t" {} = (.ok topic, disk) ∧
      Leads { topic, env := { disk } } scene ∧ scene.stage = .ended answer ∧
      IsRight {} scene.first scene.last answer := by
  obtain ⟨topic, disk, h⟩ := exists_isNew
  obtain ⟨_, hagrees⟩ := h.agrees
  obtain ⟨scanned, scan, hleads, htopic, henv, hidle, hstage, hentries, hlooks⟩ := exists_scanned h
  obtain ⟨after, later, _, commit, hrun, hafter, -⟩ := h.exists_append
  -- the tail is loaded
  have hcompared := hleads.tail (.surveys (by rw [hstage]; simp))
  have hconfirmed : scanned.survey.stage = .scanning [.origin 0] := by
    simp only [Scene.survey, hstage, htopic, Stage.next, h.partitions, hentries]
    rfl
  have hlooked : scanned.survey.looks = [⟨0, 0, none, 0⟩] := by
    simp only [Scene.survey, Scene.nextLooks, hstage, htopic, h.partitions, hlooks]
    rfl
  -- the first attempt becomes a commit
  have happended : Leads scanned.survey { scanned.survey with topic := after, env := later } :=
    leads_append hidle (by rw [← htopic, ← henv] at hrun; exact hrun)
  let appended : Scene := { scanned.survey with topic := after, env := later }
  have hscanning : appended.stage = .scanning [.origin 0] := hconfirmed
  have hnone : appended.topic.partitions[1]? = none :=
    List.getElem?_eq_none (Nat.le_of_eq hafter.holds.length_partitions)
  have hended : appended.survey.stage = .ended (.ok (.ofList [.origin 0])) := by
    show appended.stage.next _ _ = _
    simp only [hscanning, Stage.next, List.length_singleton, hnone]
  have hlooks : appended.survey.looks = [⟨0, 0, none, 0⟩] := by
    show appended.nextLooks = _
    simp only [Scene.nextLooks, hscanning, List.length_singleton, hnone]
    exact hlooked
  have hall : Leads { topic, env := { disk } } appended.survey :=
    (hcompared.trans happended).tail (.surveys (by rw [hscanning]; simp))
  refine ⟨topic, disk, _, _, h.recovered, hall, hended,
    (verify_is_right_iff hagrees hall hended).1.2 fun look hlook => ?_⟩
  rw [hlooks, List.mem_singleton] at hlook
  subst hlook
  refine ⟨⟨?_, Nat.lt_irrefl 0⟩, Nat.not_lt_zero _⟩
  rintro ⟨_, hwriting, -⟩
  cases hwriting

/-- **A frame is taken for damage while it is being written.** -/
theorem half_written_frame_is_damage : ∃ topic disk scene path pos torn,
    Topic.recover {} ⟨["", ""]⟩ "t" {} = (.ok topic, disk) ∧
      Leads { topic, env := { disk } } scene ∧
      scene.stage = .ended (.error (.corrupt path pos (.torn torn))) := by
  obtain ⟨topic, disk, h⟩ := exists_isNew
  obtain ⟨_, hagrees⟩ := h.agrees
  obtain ⟨scene, writing, hleads, htopic, hstage, hwriting, hnumber, hlanded, hrest⟩ :=
    exists_half_written h
  have hbegun := hleads.tail (.surveys (by rw [hstage]; simp))
  have hscanning : scene.survey.stage = .scanning [] := by
    simp only [Scene.survey, hstage, Stage.next]
  obtain ⟨_, _, hwatched⟩ := exists_watched hagrees hbegun
  have hp : scene.survey.topic.partitions[0]? = some newPartition := by
    show scene.topic.partitions[0]? = _
    rw [htopic, h.partitions]
    rfl
  obtain ⟨scan, hscan, htorn, -⟩ := hwatched.kept.scan (List.mem_of_getElem? hp)
  obtain ⟨torn, htorn⟩ := Option.isSome_iff_exists.1 (htorn.2 ⟨writing, by
    simp [Scene.look, Scene.survey, hwriting, hnumber, newPartition], hlanded, hrest⟩)
  refine ⟨topic, disk, _, newPartition.path.display, scan.validBytes, torn, h.recovered,
    hbegun.tail (.surveys (by rw [hscanning]; simp)), ?_⟩
  show scene.survey.stage.next _ _ = _
  simp only [hscanning, Stage.next, List.length_nil, hp, hscan, htorn]

/-- **A frame that is recorded between the two looks is taken for missing.** -/
theorem later_frame_is_damage : ∃ topic disk scene path pos committed,
    Topic.recover {} ⟨["", ""]⟩ "t" {} = (.ok topic, disk) ∧
      Leads { topic, env := { disk } } scene ∧
      scene.stage = .ended (.error (.corrupt path pos (.entriesMissing 0 committed))) := by
  obtain ⟨topic, disk, h⟩ := exists_isNew
  obtain ⟨scanned, scan, hleads, htopic, henv, hidle, hstage, hentries, -⟩ := exists_scanned h
  obtain ⟨after, later, _, commit, hrun, hafter, -⟩ := h.exists_append
  have happended : Leads scanned { scanned with topic := after, env := later } :=
    leads_append hidle (by rw [← htopic, ← henv] at hrun; exact hrun)
  have hcommit := List.mem_singleton_self commit
  -- the commit is in the only partition, and holds an entry
  have hnumber : commit.partition = 0 := UInt32.lt_one_iff.1 (hafter.history.lt commit hcommit)
  obtain ⟨p, hp, -, hholds⟩ := hafter.holds.exists_partition (show 0 < 1 by decide)
  have htail : 0 < p.tailOffset := by
    rw [hholds.tailOffset, Partition.framesIn_singleton, if_pos hnumber.symm,
      Partition.entryCount_cons]
    have hentries := (hafter.history.isCommit commit hcommit).2
    exact Nat.add_pos_left (List.length_pos_iff.2 hentries) _
  refine ⟨topic, disk, _, p.path.display, scan.validBytes, p.tailOffset, h.recovered,
    (hleads.trans happended).tail (.surveys ?_), ?_⟩
  · show ∀ answer, scanned.stage ≠ _
    rw [hstage]
    simp
  · show scanned.stage.next after later.disk = _
    have hget : after.partitions[0]? = some p := hp
    simp only [hstage, Stage.next, List.length_nil, hget, hentries, htail, if_true]

end CommitLog.Survey
