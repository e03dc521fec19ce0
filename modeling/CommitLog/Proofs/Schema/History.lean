import CommitLog.Proofs.Schema.Registry
import Mathlib.Data.List.Induction

/-!
# The history of a registry

A registry that begins empty has been through a row of registrations, some of them accepted, some
refused, some of versions that it knew already. What it answers from then on is a matter of that row
alone: the latest version of a name is the last new one of that name that was accepted, versions
stay where they are, and the registrations of other names might as well not have been made
(`registry_history`).
-/

namespace CommitLog.Schema.Registry

variable {registry other after : Registry} {schema found : Schema} {name : String}
  {fingerprint : Fingerprint} {result : Except Error Fingerprint} {front later : List Schema}

/-! ## Rows of registrations -/

/-- The registry after a row of registrations. -/
def registerAll (registry : Registry) (schemas : List Schema) : Registry :=
  schemas.foldl (fun registry schema => (registry.register schema).2) registry

theorem registerAll_cons (registry : Registry) (schema : Schema) (later : List Schema) :
    registry.registerAll (schema :: later) = (registry.register schema).2.registerAll later := rfl

theorem registerAll_append (registry : Registry) (front later : List Schema) :
    registry.registerAll (front ++ later) = (registry.registerAll front).registerAll later :=
  List.foldl_append

theorem registerAll_concat (registry : Registry) (front : List Schema) (schema : Schema) :
    registry.registerAll (front ++ [schema])
      = ((registry.registerAll front).register schema).2 := registerAll_append ..

/-- Whether a registration is accepted of a version that was not known before. -/
def isNews (registry : Registry) (schema : Schema) : Bool :=
  (registry.register schema).1.toOption.isSome
    && (registry.resolve? schema.name schema.fingerprint).isNone

/-- The versions that a row of registrations makes known, in order. -/
def newVersions (registry : Registry) : List Schema → List Schema
  | [] => []
  | schema :: later =>
    (if registry.isNews schema then [schema] else [])
      ++ newVersions (registry.register schema).2 later

/-- A registration changes the registry if and only if it brings news. -/
theorem register_snd (registry : Registry) (schema : Schema) :
    (registry.register schema).2
      = if registry.isNews schema then registry.add schema else registry := by
  rcases hrun : registry.register schema with ⟨result, after⟩
  unfold isNews
  rw [hrun]
  cases registered_of_register hrun with
  | known hsome => simp [Option.isSome_iff_ne_none.1 hsome]
  | accepted hunknown => simp [hunknown, Except.toOption]
  | rejected => simp [Except.toOption]

theorem coherent_registerAll (h : registry.Coherent) (schemas : List Schema) :
    (registry.registerAll schemas).Coherent := by
  induction schemas generalizing registry with
  | nil => exact h
  | cons schema later ih => exact ih (h.register rfl)

theorem versionsOf_registerAll (registry : Registry) (schemas : List Schema) (name : String) :
    (registry.registerAll schemas).versionsOf name
      = registry.versionsOf name
        ++ (newVersions registry schemas).filter fun schema => schema.name == name := by
  induction schemas generalizing registry with
  | nil => simp [registerAll, newVersions]
  | cons schema later ih =>
    rw [registerAll_cons, ih, newVersions, List.filter_append, ← List.append_assoc]
    congr 1
    rw [register_snd]
    split
    next =>
      rw [versionsOf_add]
      by_cases hname : name = schema.name
      · simp [hname]
      · simp [hname, Ne.symm hname]
    next => simp

/-- What was found once is found for ever. -/
theorem resolve?_registerAll (schemas : List Schema)
    (h : registry.resolve? name fingerprint = some found) :
    (registry.registerAll schemas).resolve? name fingerprint = some found := by
  induction schemas generalizing registry with
  | nil => exact h
  | cons schema later ih => exact ih (resolve?_register rfl h)

/-! ## One name -/

/-- Two registries say the same about a name. -/
structure AgreeOn (name : String) (registry other : Registry) : Prop where
  versionsOf : registry.versionsOf name = other.versionsOf name
  latest? : registry.latest? name = other.latest? name

namespace AgreeOn

theorem resolve? (h : AgreeOn name registry other) (fingerprint : Fingerprint) :
    registry.resolve? name fingerprint = other.resolve? name fingerprint := by
  rw [resolve?_eq, resolve?_eq, h.versionsOf]

/-- A registration is answered from what is known of its own name. -/
theorem register_fst (h : AgreeOn schema.name registry other) :
    (registry.register schema).1 = (other.register schema).1 := by
  unfold register
  simp only [h.resolve?, h.latest?]
  split
  next => rfl
  next =>
    split
    next => rfl
    next => split <;> rfl

theorem isNews (h : AgreeOn schema.name registry other) :
    registry.isNews schema = other.isNews schema := by
  unfold Registry.isNews
  rw [h.register_fst, h.resolve?]

theorem register (h : AgreeOn schema.name registry other) :
    AgreeOn schema.name (registry.register schema).2 (other.register schema).2 := by
  rw [register_snd, register_snd, h.isNews]
  split
  next =>
    constructor
    · rw [versionsOf_add, versionsOf_add, h.versionsOf]
    · rw [latest?_add, latest?_add, h.latest?]
  next => exact h

/-- What is registered under another name makes no difference. -/
theorem register_of_ne (h : AgreeOn name registry other) (hname : schema.name ≠ name) :
    AgreeOn name (registry.register schema).2 other := by
  rw [register_snd]
  split
  next =>
    constructor
    · rw [versionsOf_add, if_neg hname.symm, List.append_nil, h.versionsOf]
    · rw [latest?_add, if_neg hname.symm, h.latest?]
  next => exact h

/-- A row of registrations might as well have been that of one name, as far as that name goes. -/
theorem registerAll (h : AgreeOn name registry other) (schemas : List Schema) :
    AgreeOn name (registry.registerAll schemas)
      (other.registerAll (schemas.filter fun schema => schema.name == name)) := by
  induction schemas generalizing registry other with
  | nil => exact h
  | cons schema later ih =>
    by_cases hname : schema.name = name
    · subst hname
      rw [List.filter_cons_of_pos (by simp)]
      exact ih h.register
    · rw [List.filter_cons_of_neg (by simpa using hname)]
      exact ih (h.register_of_ne hname)

end AgreeOn

/-! ## The whole history -/

/-- A version of a name was accepted in a row of registrations. -/
def Accepted (calls : List Schema) (name : String) (fingerprint : Fingerprint) : Prop :=
  ∃ front schema later, calls = front ++ schema :: later ∧ schema.name = name ∧
    ((empty.registerAll front).register schema).1 = .ok fingerprint

theorem accepted_concat_iff (calls : List Schema) (schema : Schema) (name : String)
    (fingerprint : Fingerprint) :
    Accepted (calls ++ [schema]) name fingerprint ↔ Accepted calls name fingerprint ∨
      schema.name = name ∧ ((empty.registerAll calls).register schema).1 = .ok fingerprint := by
  constructor
  · rintro ⟨front, accepted, later, hcalls, hname, hok⟩
    rcases List.eq_nil_or_concat later with rfl | ⟨middle, last, rfl⟩
    · obtain ⟨rfl, hsame⟩ := List.append_inj' hcalls rfl
      obtain rfl := List.singleton_inj.1 hsame
      exact Or.inr ⟨hname, hok⟩
    · rw [List.concat_eq_append, ← List.cons_append, ← List.append_assoc] at hcalls
      obtain ⟨rfl, -⟩ := List.append_inj' hcalls rfl
      exact Or.inl ⟨front, accepted, middle, rfl, hname, hok⟩
  · rintro (⟨front, accepted, later, rfl, hname, hok⟩ | ⟨hname, hok⟩)
    · exact ⟨front, accepted, later ++ [schema], by simp, hname, hok⟩
    · exact ⟨calls, schema, [], rfl, hname, hok⟩

/-- A version is found if and only if it was accepted. -/
theorem resolve?_isSome_iff_accepted (calls : List Schema) (name : String)
    (fingerprint : Fingerprint) :
    ((empty.registerAll calls).resolve? name fingerprint).isSome ↔
      Accepted calls name fingerprint := by
  induction calls using List.reverseRecOn with
  | nil => simp [registerAll, empty, resolve?, Accepted]
  | append_singleton calls schema ih =>
    rw [accepted_concat_iff, ← ih, registerAll_concat]
    rcases hrun : (empty.registerAll calls).register schema with ⟨result, after⟩
    cases registered_of_register hrun with
    | known hsome =>
      refine ⟨Or.inl, ?_⟩
      rintro (h | ⟨rfl, hok⟩)
      · exact h
      · rwa [← Except.ok.inj hok]
    | accepted hunknown =>
      rw [resolve?_add, Option.isSome_or, Bool.or_eq_true]
      refine or_congr_right ?_
      by_cases hkey : schema.name = name ∧ schema.fingerprint = fingerprint
      · simp [hkey]
      · simp [hkey]
    | rejected => simp

/-- What a registry does after a row of registrations. -/
structure IsHistory (calls : List Schema) (registry : Registry) : Prop where
  /-- The latest version of a name is the last one that was accepted and not known before. -/
  latest?_eq : ∀ name, registry.latest? name
    = ((newVersions empty calls).filter fun schema => schema.name == name).getLast?
  /-- There is one as soon as a version of that name was accepted. -/
  latest?_isSome : ∀ name fingerprint, Accepted calls name fingerprint →
    (registry.latest? name).isSome
  /-- The latest version is found under its own fingerprint. -/
  resolve?_latest : ∀ name latest, registry.latest? name = some latest →
    latest.name = name ∧ registry.resolve? name latest.fingerprint = some latest
  /-- What is found once is found for ever. -/
  resolve?_later : ∀ name fingerprint found, registry.resolve? name fingerprint = some found →
    ∀ later, (registry.registerAll later).resolve? name fingerprint = some found
  /-- A version is found if and only if it was accepted. -/
  resolve?_isSome_iff : ∀ name fingerprint,
    (registry.resolve? name fingerprint).isSome ↔ Accepted calls name fingerprint
  /-- A version that was accepted before is accepted again, and changes nothing. -/
  register_known : ∀ schema, Accepted calls schema.name schema.fingerprint →
    registry.register schema = (.ok schema.fingerprint, registry)
  /-- A new version that is accepted can read what the latest one wrote, and takes its place. -/
  register_new : ∀ schema after, ¬Accepted calls schema.name schema.fingerprint →
    registry.register schema = (.ok schema.fingerprint, after) →
    (∀ latest, registry.latest? schema.name = some latest →
      schema.compatibleWith latest = true) ∧
    after.latest? schema.name = some schema ∧ after.size = registry.size + 1
  /-- A version is refused for the rules that it breaks against the latest one, and changes
  nothing. -/
  register_refused : ∀ schema error after, registry.register schema = (.error error, after) →
    after = registry ∧ ∃ latest reasons, registry.latest? schema.name = some latest ∧
      schema.evolution latest = .incompatible reasons ∧ error = .incompatible schema.name reasons
  /-- What is said about a name is a matter of the registrations of that name. -/
  names : ∀ name, AgreeOn name registry
    (empty.registerAll (calls.filter fun schema => schema.name == name))
  /-- So is what is answered to registrations of that name. -/
  answers : ∀ schema, (registry.register schema).1
    = ((empty.registerAll (calls.filter fun other => other.name == schema.name)).register schema).1

/-- **A registry is its history.** Whatever is registered on an empty registry, in whatever order:
the latest version of a name is the last new one that was accepted, versions are found for ever once
they were accepted, each could read what the one before it wrote, a refusal says why and changes
nothing, and names do not touch each other. -/
theorem registry_history (calls : List Schema) :
    IsHistory calls (empty.registerAll calls) := by
  have hcoherent := coherent_registerAll coherent_empty calls
  have hknown := resolve?_isSome_iff_accepted calls
  have hagree : ∀ name, AgreeOn name (empty.registerAll calls)
      (empty.registerAll (calls.filter fun schema => schema.name == name)) :=
    fun name => AgreeOn.registerAll ⟨rfl, rfl⟩ calls
  constructor
  · intro name
    rw [hcoherent.latest?_eq, versionsOf_registerAll]
    rfl
  · intro name fingerprint haccepted
    obtain ⟨found, hfound⟩ := Option.isSome_iff_exists.1 ((hknown name fingerprint).2 haccepted)
    rw [hcoherent.latest?_eq, List.getLast?_isSome]
    exact List.ne_nil_of_mem (of_resolve? hfound).1
  · intro name latest hlatest
    rw [hcoherent.latest?_eq] at hlatest
    have hmem := List.mem_of_getLast? hlatest
    exact ⟨by simpa using (List.mem_filter.1 hmem).2, hcoherent.resolve?_of_mem hmem⟩
  · intro name fingerprint found hfound later
    exact resolve?_registerAll later hfound
  · exact hknown
  · intro schema haccepted
    exact register_of_known ((hknown _ _).2 haccepted)
  · intro schema after hnew hrun
    rw [← hknown] at hnew
    obtain ⟨hreads, rfl⟩ := reads_of_register hrun rfl (by simpa using hnew)
    exact ⟨hreads, by rw [latest?_add, if_pos rfl], size_add ..⟩
  · intro schema error after hrun
    exact breaks_of_register hrun rfl
  · exact hagree
  · intro schema
    exact (hagree schema.name).register_fst

/-- A wider number is accepted, and a text in its place refused. -/
theorem registry_history_of_refusal :
    ((empty.registerAll [⟨"order", [{ name := "id", type := .int }]⟩,
        ⟨"order", [{ name := "id", type := .long }]⟩]).register
          ⟨"order", [{ name := "id", type := .string }]⟩).1
        = .error (.incompatible "order" [.unreadableField "id" .long .string]) ∧
      IsHistory [⟨"order", [{ name := "id", type := .int }]⟩,
          ⟨"order", [{ name := "id", type := .long }]⟩]
        (empty.registerAll [⟨"order", [{ name := "id", type := .int }]⟩,
          ⟨"order", [{ name := "id", type := .long }]⟩]) :=
  ⟨by decide +kernel, registry_history _⟩

end CommitLog.Schema.Registry
