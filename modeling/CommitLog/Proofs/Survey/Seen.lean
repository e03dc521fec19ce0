import CommitLog.Proofs.Survey.Kept

/-!
# The way of a survey

What a survey comes to is told by what there was to see when it looked at each partition. `Seen`
follows it from look to look: it goes on after a look that is calm, and ends with an alarm after one
that is not. Whatever the writer does in between, every step keeps to this (`Watched.step`).
-/

namespace CommitLog.Survey

open CommitLog.Disk (maxFileLength)
open CommitLog.Partition (entryCount)
open CommitLog.Topic (Agrees Folder partitionNumbers)

variable {config : Config} {folder : Folder} {scene next : Scene} {settled : Disk}
  {frames : UInt32 → List Frame} {first : Revisions} {topic : Topic} {env : Env}
  {commits : List RawCommit}

/-! ## Looks -/

namespace Look

/-- How far a partition reaches by what there was to see. -/
def revision (look : Look) : Revision := ⟨look.number, UInt64.ofNat look.found⟩

/-- A survey goes on after this look. -/
def IsCalm (look : Look) : Prop := ¬look.IsTorn ∧ ¬look.IsOvertaken

/-- Looking has not fallen into the writing of a frame. -/
def IsFair (look : Look) (last : Revisions) : Prop := look.IsCalm ∧ ¬look.IsAhead last

/-- A survey ends with this failure after a look. -/
inductive Alarms (look : Look) : LogError → Prop where
  | torn {path : String} {pos : Nat} {torn : Partition.Torn} (isTorn : look.IsTorn) :
      Alarms look (.corrupt path pos (.torn torn))
  | overtaken {path : String} {pos : Nat} (isOvertaken : look.IsOvertaken) :
      Alarms look (.corrupt path pos (.entriesMissing look.found look.loaded))

/-- A look at a partition that reached at least as far as it did at first. -/
structure Fits (look : Look) (config : Config) (first : Revisions) : Prop where
  lt : look.number < config.partitions
  first_le : (first.get look.number).offset.toNat ≤ look.recorded
  found_le : look.found ≤ maxFileLength

theorem Fits.toNat_revision {look : Look} (h : look.Fits config first) :
    look.revision.offset.toNat = look.found := by
  have hle := h.found_le
  have hlimit : maxFileLength < 2 ^ 64 := by decide
  rw [revision, UInt64.toNat_ofNat']
  exact Nat.mod_eq_of_lt (Nat.lt_of_le_of_lt hle hlimit)

end Look

/-! ## The way of a survey -/

/-- The partitions that have been looked at are the first ones, and they reach as far as there was
to see. -/
structure Confirmed (config : Config) (looks : List Look) (found : List Revision) : Prop where
  found_eq : found = looks.reverse.map Look.revision
  numbers_eq : looks.reverse.map Look.number = (partitionNumbers config).take found.length
  calm : ∀ look ∈ looks, look.IsCalm

/-- Where a survey is after it has looked at this, the last look first. -/
inductive Seen (config : Config) : Stage → List Look → Prop where
  | idle : Seen config .idle []
  | scanning {looks : List Look} {found : List Revision} (confirmed : Confirmed config looks found) :
      Seen config (.scanning found) looks
  | comparing {look : Look} {looks : List Look} {found : List Revision} {scan : Partition.Scan}
      (confirmed : Confirmed config looks found)
      (number : (partitionNumbers config)[found.length]? = some look.number)
      (entries : scan.entries = look.found) (whole : ¬look.IsTorn) :
      Seen config (.comparing found scan) (look :: looks)
  | confirmed {looks : List Look} {found : List Revision} (confirmed : Confirmed config looks found)
      (all : found.length = (partitionNumbers config).length) :
      Seen config (.ended (.ok (.ofList found))) looks
  | alarmed {look : Look} {looks : List Look} {failure : LogError} (alarms : look.Alarms failure) :
      Seen config (.ended (.error failure)) (look :: looks)

namespace Confirmed

variable {look : Look} {looks : List Look} {found : List Revision}

theorem nil (config : Config) : Confirmed config [] [] := ⟨rfl, rfl, nofun⟩

theorem length_le (h : Confirmed config looks found) :
    found.length ≤ (partitionNumbers config).length := by
  have hlength := congrArg List.length h.numbers_eq
  have hfound := congrArg List.length h.found_eq
  simp only [List.length_map, List.length_reverse, List.length_take] at hlength hfound
  omega

theorem cons (h : Confirmed config looks found)
    (hnumber : (partitionNumbers config)[found.length]? = some look.number)
    (hcalm : look.IsCalm) : Confirmed config (look :: looks) (found ++ [look.revision]) where
  found_eq := by rw [List.reverse_cons, List.map_append, ← h.found_eq]; rfl
  numbers_eq := by
    rw [List.reverse_cons, List.map_append, h.numbers_eq, List.length_append,
      List.length_singleton, List.take_add_one, hnumber]
    rfl
  calm other hother := by
    rcases List.mem_cons.1 hother with rfl | hother
    · exact hcalm
    · exact h.calm other hother

/-- Every partition has been looked at. -/
theorem exists_look (h : Confirmed config looks found)
    (hall : found.length = (partitionNumbers config).length) {number : UInt32}
    (hnumber : number < config.partitions) : ∃ look ∈ looks, look.number = number := by
  have hmem := Topic.mem_partitionNumbers.2 hnumber
  have htaken := h.numbers_eq
  rw [hall, List.take_length] at htaken
  rw [← htaken, List.mem_map] at hmem
  obtain ⟨look, hlook, hsame⟩ := hmem
  exact ⟨look, List.mem_reverse.1 hlook, hsame⟩

/-- What was found of a partition is what there was to see. -/
theorem get_ofList (h : Confirmed config looks found) (hlook : look ∈ looks) :
    (Revisions.ofList found).get look.number = look.revision := by
  have hnumbers : found.map Revision.partition = looks.reverse.map Look.number := by
    rw [h.found_eq, List.map_map]
    rfl
  have hnodup : (found.map Revision.partition).Nodup := by
    rw [hnumbers, h.numbers_eq]
    exact (Topic.nodup_partitionNumbers config).sublist (List.take_sublist ..)
  have hmem : look.revision ∈ found := by
    rw [h.found_eq]
    exact List.mem_map_of_mem (List.mem_reverse.2 hlook)
  exact Revisions.get_ofList_of_mem hnodup hmem

end Confirmed

theorem entryCount_le_of_later {frames later : List Frame} (h : frames <+: later) :
    entryCount frames ≤ entryCount later := by
  obtain ⟨more, rfl⟩ := h
  rw [Partition.entryCount_append]
  exact Nat.le_add_right ..

/-- A scene that a survey has come to beside a writer. -/
structure Watched (config : Config) (folder : Folder) (scene : Scene) (settled : Disk)
    (frames : UInt32 → List Frame) : Prop where
  kept : Kept config folder scene settled frames
  seen : Seen config scene.stage scene.looks
  fits : ∀ look ∈ scene.looks, look.Fits config scene.first
  first_le : scene.stage ≠ .idle → ∀ number, number < config.partitions →
    (scene.first.get number).offset.toNat ≤ entryCount (frames number)

namespace Watched

variable (h : Watched config folder scene settled frames)

include h

/-- The partition at a place is the one of that number. -/
theorem getElem?_numbers (i : Nat) :
    (partitionNumbers config)[i]? = (scene.topic.partitions[i]?).map Partition.number := by
  rw [← h.kept.holds.numbers_eq, List.getElem?_map]

theorem toNat_tails {number : UInt32} (hnumber : number < config.partitions) :
    (scene.topic.tails.get number).offset.toNat = entryCount (frames number) := by
  rw [h.kept.holds.get_tails_of_lt hnumber]
  exact Topic.toNat_ofNat_entryCount (h.kept.holds.length_le h.kept.sound hnumber)

/-- A look at a partition of the topic. -/
theorem fits_look {p : Partition} (hstage : scene.stage ≠ .idle)
    (hp : p ∈ scene.topic.partitions) : (scene.look p).Fits config scene.first := by
  have hlt : p.number < config.partitions := by
    rw [← Topic.mem_partitionNumbers, ← h.kept.holds.numbers_eq]
    exact List.mem_map_of_mem hp
  obtain ⟨scan, -, -, hentries, hle⟩ := h.kept.scan hp
  refine ⟨hlt, ?_, hentries ▸ hle⟩
  show _ ≤ p.tailOffset
  rw [(h.kept.holds.partition p hp).tailOffset]
  exact h.first_le hstage p.number hlt

/-- A survey begins. -/
theorem begin (hstage : scene.stage = .idle) :
    Watched config folder scene.survey settled frames := by
  have hseen := h.seen
  rw [hstage] at hseen
  have hlooks : scene.survey.looks = [] := by
    cases hlooks : scene.looks with
    | nil => simp only [Scene.survey, Scene.nextLooks, hstage, hlooks]
    | cons => rw [hlooks] at hseen; cases hseen
  refine ⟨h.kept.survey, ?_, ?_, fun _ number hnumber => ?_⟩
  · rw [hlooks, Scene.survey, hstage]
    exact .scanning (.nil config)
  · rw [hlooks]
    exact nofun
  · simp only [Scene.survey, hstage]
    exact Nat.le_of_eq (h.toNat_tails hnumber)

/-- A survey goes on. -/
theorem goOn (hstage : scene.stage ≠ .idle) {stage : Stage} {looks : List Look}
    (hnext : scene.stage.next scene.topic scene.env.disk = stage) (hlooks : scene.nextLooks = looks)
    (hseen : Seen config stage looks) (hfits : ∀ look ∈ looks, look.Fits config scene.first) :
    Watched config folder scene.survey settled frames := by
  have hfirst : scene.survey.first = scene.first := by
    cases hcase : scene.stage with
    | idle => exact absurd hcase hstage
    | _ => simp only [Scene.survey, hcase]
  refine ⟨h.kept.survey, ?_, ?_, fun _ number hnumber => ?_⟩
  · show Seen config (scene.stage.next _ _) scene.nextLooks
    rw [hnext, hlooks]
    exact hseen
  · rw [hfirst]
    show ∀ look ∈ scene.nextLooks, _
    rw [hlooks]
    exact hfits
  · rw [hfirst]
    exact h.first_le hstage number hnumber

/-- The survey looks at the file of a partition, or has looked at all of them. -/
theorem scan {found : List Revision} (hstage : scene.stage = .scanning found)
    (hconfirmed : Confirmed config scene.looks found) :
    Watched config folder scene.survey settled frames := by
  have hgoesOn : scene.stage ≠ .idle := by rw [hstage]; nofun
  cases hp : scene.topic.partitions[found.length]? with
  | none =>
    have hall : found.length = (partitionNumbers config).length := by
      have hnone := h.getElem?_numbers found.length
      rw [hp, Option.map_none, List.getElem?_eq_none_iff] at hnone
      exact Nat.le_antisymm hconfirmed.length_le hnone
    refine h.goOn hgoesOn ?_ ?_ (.confirmed hconfirmed hall) h.fits
    · simp only [hstage, Stage.next, hp]
    · simp only [Scene.nextLooks, hstage, hp]
  | some p =>
    have hmem := List.mem_of_getElem? hp
    obtain ⟨scan, hscan, htorn, hentries, -⟩ := h.kept.scan hmem
    have hlooks : scene.nextLooks = scene.look p :: scene.looks := by
      simp only [Scene.nextLooks, hstage, hp]
    have hfits : ∀ look ∈ scene.look p :: scene.looks, look.Fits config scene.first := by
      intro look hlook
      rcases List.mem_cons.1 hlook with rfl | hlook
      · exact h.fits_look hgoesOn hmem
      · exact h.fits look hlook
    cases hleft : scan.torn with
    | some torn =>
      have hnext : scene.stage.next scene.topic scene.env.disk
          = .ended (.error (.corrupt p.path.display scan.validBytes (.torn torn))) := by
        simp only [hstage, Stage.next, hp, hscan, hleft]
      exact h.goOn hgoesOn hnext hlooks (.alarmed (.torn (htorn.1 (by rw [hleft]; rfl)))) hfits
    | none =>
      have hnumber : (partitionNumbers config)[found.length]? = some (scene.look p).number := by
        rw [h.getElem?_numbers, hp]
        rfl
      have hwhole : ¬(scene.look p).IsTorn := by
        rw [← htorn, hleft]
        exact Bool.false_ne_true
      refine h.goOn hgoesOn ?_ hlooks (.comparing hconfirmed hnumber hentries hwhole) hfits
      simp only [hstage, Stage.next, hp, hscan, hleft]

/-- The survey looks at the tail of a partition. -/
theorem compare {look : Look} {looks : List Look} {found : List Revision} {scan : Partition.Scan}
    (hstage : scene.stage = .comparing found scan) (hlooks : scene.looks = look :: looks)
    (hconfirmed : Confirmed config looks found)
    (hnumber : (partitionNumbers config)[found.length]? = some look.number)
    (hentries : scan.entries = look.found) (hwhole : ¬look.IsTorn) :
    Watched config folder scene.survey settled frames := by
  have hgoesOn : scene.stage ≠ .idle := by rw [hstage]; nofun
  obtain ⟨p, hp, hsame⟩ := Option.map_eq_some_iff.1 ((h.getElem?_numbers _).symm.trans hnumber)
  let loaded : Look := { look with loaded := p.tailOffset }
  have hnext : scene.nextLooks = loaded :: looks := by
    simp only [Scene.nextLooks, hstage, hp, hlooks]
    exact rfl
  have hfits : ∀ other ∈ loaded :: looks, other.Fits config scene.first := by
    intro other hother
    have hall := h.fits
    rw [hlooks] at hall
    rcases List.mem_cons.1 hother with rfl | hother
    · have hlook := hall look List.mem_cons_self
      exact ⟨hlook.lt, hlook.first_le, hlook.found_le⟩
    · exact hall other (List.mem_cons_of_mem _ hother)
  by_cases hlt : scan.entries < p.tailOffset
  · have hovertaken : loaded.IsOvertaken := by
      rw [hentries] at hlt
      exact hlt
    have hstop : scene.stage.next scene.topic scene.env.disk
        = .ended (.error (.corrupt p.path.display scan.validBytes
            (.entriesMissing scan.entries p.tailOffset))) := by
      simp only [hstage, Stage.next, hp, hlt, if_true]
    rw [hentries] at hstop
    exact h.goOn hgoesOn hstop hnext (.alarmed (.overtaken hovertaken)) hfits
  · have hcalm : loaded.IsCalm := by
      rw [hentries] at hlt
      exact ⟨hwhole, hlt⟩
    have hon : scene.stage.next scene.topic scene.env.disk
        = .scanning (found ++ [⟨p.number, UInt64.ofNat scan.entries⟩]) := by
      simp only [hstage, Stage.next, hp, hlt, if_false]
    rw [hsame, hentries] at hon
    exact h.goOn hgoesOn hon hnext (.scanning (hconfirmed.cons hnumber hcalm)) hfits

/-- The survey takes a step. -/
theorem survey (hgoesOn : ∀ answer, scene.stage ≠ .ended answer) :
    Watched config folder scene.survey settled frames := by
  have hseen := h.seen
  generalize hstage : scene.stage = stage at hseen
  generalize hlooks : scene.looks = looks at hseen
  cases hseen with
  | idle => exact h.begin hstage
  | scanning hconfirmed => exact h.scan hstage (hlooks ▸ hconfirmed)
  | comparing hconfirmed hnumber hentries hwhole =>
    exact h.compare hstage hlooks hconfirmed hnumber hentries hwhole
  | confirmed => exact absurd hstage (hgoesOn _)
  | alarmed => exact absurd hstage (hgoesOn _)

/-- **Every step keeps to what there was to see.** -/
theorem step (hstep : Step scene next) :
    ∃ settled later, Watched config folder next settled later := by
  obtain ⟨reached, later, hkept, hlater⟩ := h.kept.step hstep
  have hfirst : scene.stage ≠ .idle → ∀ number, number < config.partitions →
      (scene.first.get number).offset.toNat ≤ entryCount (later number) :=
    fun hstage number hnumber =>
      Nat.le_trans (h.first_le hstage number hnumber) (entryCount_le_of_later (hlater number))
  cases hstep with
  | surveys hgoesOn => exact ⟨_, _, h.survey hgoesOn⟩
  | begins => exact ⟨_, _, hkept, h.seen, h.fits, hfirst⟩
  | lands => exact ⟨_, _, hkept, h.seen, h.fits, hfirst⟩
  | syncs => exact ⟨_, _, hkept, h.seen, h.fits, hfirst⟩
  | records => exact ⟨_, _, hkept, h.seen, h.fits, hfirst⟩

end Watched

/-- A survey beside a writer begins at rest. -/
theorem watched_start (h : Agrees config topic env.disk folder commits) :
    Watched config folder { topic, env } env.disk (framesIn commits) where
  kept := {
    sound := h.sound
    reliable := h.reliable
    limit := h.maxEntryBytes ▸ h.limit
    isCommit := fun number => h.maxEntryBytes ▸ h.history.isCommit_framesIn number
    holds := h.holds
    rests := fun _ => rfl
    writes := nofun }
  seen := .idle
  fits := nofun
  first_le hstage := absurd rfl hstage

theorem exists_watched (h : Agrees config topic env.disk folder commits)
    (hleads : Leads { topic, env } scene) :
    ∃ settled frames, Watched config folder scene settled frames := by
  induction hleads with
  | refl => exact ⟨_, _, watched_start h⟩
  | tail _ hstep ih =>
    obtain ⟨_, _, hwatched⟩ := ih
    exact hwatched.step hstep

end CommitLog.Survey
