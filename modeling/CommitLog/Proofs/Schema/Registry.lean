import CommitLog.Schema.Registry
import Mathlib.Data.List.Nodup

/-!
# What a registry remembers

A registry keeps its versions twice: all of them in one list, and the latest one of each name beside
it. `Coherent` says that both tell the same story, and every registration keeps it so
(`Coherent.register`). What a registry knows of a name is then the row of versions of that name,
in the order in which they were accepted; the last of them is the latest, and each is found by its
fingerprint for ever.

`registered_of_register` says all that one registration can do, and every law of a row of
registrations is drawn from that.
-/

namespace CommitLog.Schema.Registry

variable {registry after : Registry} {schema found : Schema} {name : String}
  {fingerprint : Fingerprint} {result : Except Error Fingerprint}

/-! ## Looking up -/

/-- The versions of a name, in the order in which they became known. -/
def versionsOf (registry : Registry) (name : String) : List Schema :=
  registry.versions.filter fun schema => schema.name == name

theorem resolve?_eq (registry : Registry) (name : String) (fingerprint : Fingerprint) :
    registry.resolve? name fingerprint
      = (registry.versionsOf name).find? fun schema => schema.fingerprint == fingerprint := by
  unfold resolve? versionsOf
  rw [List.find?_filter]
  congr 1
  funext schema
  simp only [Bool.decide_and, Bool.decide_eq_true]

theorem of_resolve? (h : registry.resolve? name fingerprint = some found) :
    found ∈ registry.versionsOf name ∧ found.name = name ∧ found.fingerprint = fingerprint := by
  rw [resolve?_eq] at h
  have hmem := List.mem_of_find?_eq_some h
  have hfound := List.find?_some h
  exact ⟨hmem, by simpa using (List.mem_filter.1 hmem).2, by simpa using hfound⟩

theorem lookup_putLatest (name other : String) (schema : Schema)
    (latest : List (String × Schema)) :
    (putLatest name schema latest).lookup other
      = if other = name then some schema else latest.lookup other := by
  induction latest with
  | nil =>
    unfold putLatest
    rw [List.lookup_cons]
    split <;> simp_all
  | cons entry rest ih =>
    obtain ⟨n, s⟩ := entry
    unfold putLatest
    by_cases hn : n = name
    · subst hn
      rw [if_pos rfl, List.lookup_cons, List.lookup_cons]
      split <;> simp_all
    · rw [if_neg hn, List.lookup_cons, List.lookup_cons, ih]
      split <;> simp_all

/-! ## One more version -/

theorem versionsOf_add (registry : Registry) (schema : Schema) (name : String) :
    (registry.add schema).versionsOf name
      = registry.versionsOf name ++ if name = schema.name then [schema] else [] := by
  unfold versionsOf add
  rw [List.filter_append]
  by_cases h : name = schema.name
  · simp [h]
  · simp [h, Ne.symm h]

theorem latest?_add (registry : Registry) (schema : Schema) (name : String) :
    (registry.add schema).latest? name
      = if name = schema.name then some schema else registry.latest? name :=
  lookup_putLatest _ _ _ _

theorem resolve?_add (registry : Registry) (schema : Schema) (name : String)
    (fingerprint : Fingerprint) :
    (registry.add schema).resolve? name fingerprint
      = (registry.resolve? name fingerprint).or
        (if schema.name = name ∧ schema.fingerprint = fingerprint then some schema else none) := by
  unfold resolve? add
  rw [List.find?_append]
  by_cases h : schema.name = name ∧ schema.fingerprint = fingerprint
  · simp [h]
  · rw [if_neg h, List.find?_singleton, if_neg (by simpa using h)]

theorem size_add (registry : Registry) (schema : Schema) :
    (registry.add schema).size = registry.size + 1 := by
  simp [size, add]

/-! ## One registration -/

/-- What a registration comes to. -/
inductive Registered (registry : Registry) (schema : Schema) :
    Except Error Fingerprint → Registry → Prop where
  /-- The version is known already. -/
  | known (isSome : (registry.resolve? schema.name schema.fingerprint).isSome) :
      Registered registry schema (.ok schema.fingerprint) registry
  /-- The version is new, and reads what the latest one wrote. -/
  | accepted (unknown : registry.resolve? schema.name schema.fingerprint = none)
      (reads : ∀ latest, registry.latest? schema.name = some latest →
        schema.compatibleWith latest = true) :
      Registered registry schema (.ok schema.fingerprint) (registry.add schema)
  /-- The version is new, and breaks rules against the latest one. -/
  | rejected {latest : Schema} {reasons : List Reason}
      (unknown : registry.resolve? schema.name schema.fingerprint = none)
      (latest_eq : registry.latest? schema.name = some latest)
      (breaks : schema.evolution latest = .incompatible reasons) :
      Registered registry schema (.error (.incompatible schema.name reasons)) registry

/-- **All that a registration can do.** -/
theorem registered_of_register (h : registry.register schema = (result, after)) :
    Registered registry schema result after := by
  unfold register at h
  cases hresolve : registry.resolve? schema.name schema.fingerprint with
  | some found =>
    simp only [hresolve, Option.isSome_some, if_true] at h
    obtain ⟨rfl, rfl⟩ := h
    exact .known (by rw [hresolve]; rfl)
  | none =>
    simp only [hresolve, Option.isSome_none, Bool.false_eq_true, if_false] at h
    cases hlatest : registry.latest? schema.name with
    | none =>
      simp only [hlatest] at h
      obtain ⟨rfl, rfl⟩ := h
      exact .accepted hresolve (by simp [hlatest])
    | some latest =>
      simp only [hlatest] at h
      split at h
      next reasons hevolution =>
        obtain ⟨rfl, rfl⟩ := h
        exact .rejected hresolve hlatest hevolution
      next hevolution =>
        obtain ⟨rfl, rfl⟩ := h
        refine .accepted hresolve fun other hother => ?_
        obtain rfl := Option.some.inj (hlatest.symm.trans hother)
        unfold compatibleWith
        cases hreads : schema.evolution latest with
        | incompatible reasons => exact absurd hreads (hevolution reasons)
        | identical => rfl
        | compatible => rfl

theorem register_of_known (h : (registry.resolve? schema.name schema.fingerprint).isSome) :
    registry.register schema = (.ok schema.fingerprint, registry) := by
  unfold register
  exact if_pos h

/-- A registration takes no version away. -/
theorem resolve?_register (hrun : registry.register schema = (result, after))
    (h : registry.resolve? name fingerprint = some found) :
    after.resolve? name fingerprint = some found := by
  cases registered_of_register hrun with
  | known => exact h
  | accepted => rw [resolve?_add, h, Option.some_or]
  | rejected => exact h

/-- A version that was accepted is found under its name and fingerprint. -/
theorem exists_resolve?_of_register (hrun : registry.register schema = (result, after))
    (h : result = .ok fingerprint) :
    fingerprint = schema.fingerprint ∧
      ∃ found, after.resolve? schema.name schema.fingerprint = some found := by
  cases registered_of_register hrun with
  | known hsome => exact ⟨(Except.ok.inj h).symm, Option.isSome_iff_exists.1 hsome⟩
  | accepted hunknown =>
    refine ⟨(Except.ok.inj h).symm, schema, ?_⟩
    rw [resolve?_add, hunknown, Option.none_or, if_pos ⟨rfl, rfl⟩]
  | rejected => cases h

/-- A new version that was accepted reads what the latest one wrote. -/
theorem reads_of_register (hrun : registry.register schema = (result, after))
    (h : result = .ok fingerprint)
    (hunknown : registry.resolve? schema.name schema.fingerprint = none) :
    (∀ latest, registry.latest? schema.name = some latest →
      schema.compatibleWith latest = true) ∧ after = registry.add schema := by
  cases registered_of_register hrun with
  | known hsome => simp [hunknown] at hsome
  | accepted _ hreads => exact ⟨hreads, rfl⟩
  | rejected => cases h

/-- A version that was refused breaks rules against the latest one. -/
theorem breaks_of_register {error : Error} (hrun : registry.register schema = (result, after))
    (h : result = .error error) :
    after = registry ∧ ∃ latest reasons, registry.latest? schema.name = some latest ∧
      schema.evolution latest = .incompatible reasons ∧
      error = .incompatible schema.name reasons := by
  cases registered_of_register hrun with
  | known => cases h
  | accepted => cases h
  | rejected _ hlatest hbreaks => exact ⟨rfl, _, _, hlatest, hbreaks, (Except.error.inj h).symm⟩

/-! ## The two records agree -/

/-- The latest version of a name is the last that became known, and no two versions of a name have
one fingerprint. -/
structure Coherent (registry : Registry) : Prop where
  latest?_eq : ∀ name, registry.latest? name = (registry.versionsOf name).getLast?
  distinct : ∀ name, ((registry.versionsOf name).map Schema.fingerprint).Nodup

theorem coherent_empty : empty.Coherent where
  latest?_eq _ := rfl
  distinct _ := List.nodup_nil

theorem Coherent.add (h : registry.Coherent)
    (hunknown : registry.resolve? schema.name schema.fingerprint = none) :
    (registry.add schema).Coherent where
  latest?_eq name := by
    rw [latest?_add, versionsOf_add]
    by_cases hname : name = schema.name
    · simp [hname]
    · rw [if_neg hname, if_neg hname, List.append_nil]
      exact h.latest?_eq name
  distinct name := by
    rw [versionsOf_add]
    by_cases hname : name = schema.name
    · subst hname
      rw [if_pos rfl, List.map_append, List.map_singleton]
      refine (h.distinct schema.name).append (List.nodup_singleton _) ?_
      rw [resolve?_eq, List.find?_eq_none] at hunknown
      rw [List.disjoint_singleton, List.mem_map]
      rintro ⟨known, hknown, hsame⟩
      exact hunknown known hknown (by simpa using hsame)
    · rw [if_neg hname, List.append_nil]
      exact h.distinct name

theorem Coherent.register (h : registry.Coherent)
    (hrun : registry.register schema = (result, after)) : after.Coherent := by
  cases registered_of_register hrun with
  | known => exact h
  | accepted hunknown => exact h.add hunknown
  | rejected => exact h

/-- Every version is found under its own fingerprint. -/
theorem Coherent.resolve?_of_mem (h : registry.Coherent)
    (hmem : schema ∈ registry.versionsOf name) :
    registry.resolve? name schema.fingerprint = some schema := by
  rw [resolve?_eq]
  cases hfind : (registry.versionsOf name).find? fun other =>
      other.fingerprint == schema.fingerprint with
  | none =>
    rw [List.find?_eq_none] at hfind
    exact absurd (beq_self_eq_true _) (hfind schema hmem)
  | some found =>
    have hfound := List.mem_of_find?_eq_some hfind
    have hsame : found.fingerprint = schema.fingerprint := by simpa using List.find?_some hfind
    exact congrArg some (List.inj_on_of_nodup_map (h.distinct name) hfound hmem hsame)

end CommitLog.Schema.Registry
