import CommitLog.Proofs.Schema.Header
import CommitLog.Proofs.Schema.Registry

/-!
# References to registered schemas

A reference header holds a name and a fingerprint, and the version that they stand for is looked up
when the payload is read. Writing it registers the schema, and what a registry has found once it
finds for ever (`resolve?_serveAll`). So a reference under the name of the schema itself can be
followed at any later time.

The header holds the name that it was asked for, while the registry goes by the name that stands in
the schema. Under any other name a reference is followed only if a version of that name with the
same fingerprint happens to be known (`references_are_followed`, `unknown_of_alias`).
-/

namespace CommitLog.Schema.Registry

variable {registry after : Registry} {schema found : Schema} {name : String}
  {fingerprint : Fingerprint} {revision : Revision} {front header : Bytes}

/-! ## Requests -/

/-- What changes a registry: a registration, or the writing of a reference. -/
inductive Request where
  | register (schema : Schema)
  | encode (revision : Revision) (name : String) (schema : Schema)

/-- The registry after a request. -/
def serve (registry : Registry) : Request → Registry
  | .register schema => (registry.register schema).2
  | .encode revision name schema => (registry.encode revision name schema).2

/-- The registry after a row of requests. -/
def serveAll (registry : Registry) (requests : List Request) : Registry :=
  requests.foldl serve registry

/-- To a registry, writing a reference is a registration. -/
theorem encode_snd (registry : Registry) (revision : Revision) (name : String) (schema : Schema) :
    (registry.encode revision name schema).2 = (registry.register schema).2 := by
  unfold encode
  rcases registry.register schema with ⟨_ | fingerprint, after⟩ <;> rfl

/-- No request takes a version away. -/
theorem resolve?_serve (request : Request)
    (h : registry.resolve? name fingerprint = some found) :
    (registry.serve request).resolve? name fingerprint = some found := by
  cases request with
  | register schema => exact resolve?_register rfl h
  | encode revision written schema =>
    simp only [serve, encode_snd]
    exact resolve?_register rfl h

theorem resolve?_serveAll (requests : List Request)
    (h : registry.resolve? name fingerprint = some found) :
    (registry.serveAll requests).resolve? name fingerprint = some found := by
  induction requests generalizing registry with
  | nil => exact h
  | cons request later ih => exact ih (resolve?_serve request h)

/-! ## Writing and reading -/

/-- A reference that was written is to a version that was accepted. -/
theorem of_encode (h : registry.encode revision name schema = (.ok header, after)) :
    registry.register schema = (.ok schema.fingerprint, after) ∧
      ∃ front, encodeName revision name = .ok front ∧
        header = front ++ Bytes.ofUInt64 schema.fingerprint.value := by
  unfold encode at h
  rcases hrun : registry.register schema with ⟨error | fingerprint, registered⟩
  · simp [hrun] at h
  · obtain ⟨rfl, -⟩ := exists_resolve?_of_register hrun rfl
    simp only [hrun, Prod.mk.injEq] at h
    obtain ⟨hheader, rfl⟩ := h
    cases hname : encodeName revision name with
    | error error => simp [hname, Except.map] at hheader
    | ok front =>
      rw [hname] at hheader
      exact ⟨rfl, front, rfl, (Except.ok.inj hheader).symm⟩

theorem encode_eq_ok (hrun : registry.register schema = (.ok fingerprint, after))
    (hname : encodeName revision name = .ok front) :
    registry.encode revision name schema
      = (.ok (front ++ Bytes.ofUInt64 fingerprint.value), after) := by
  unfold encode
  rw [hrun]
  simp only [hname, Except.map]

/-- A reference is read as what the registry knows under its name and fingerprint. -/
theorem read_decode (registry : Registry) (fingerprint : Fingerprint)
    (hname : encodeName revision name = .ok front) (position : Revision) (payload : Bytes) :
    Reader.read (registry.decode position name)
        (front ++ Bytes.ofUInt64 fingerprint.value ++ payload)
      = ((registry.resolve? name fingerprint).elim
          (.error (.unknown name fingerprint position)) .ok, payload) := by
  unfold decode
  rw [List.append_assoc, (restores_readName hname position).read_bind,
    (restores_readFingerprint position fingerprint).read_bind]
  cases registry.resolve? name fingerprint <;> rfl

/-- **References are followed for ever.** A reference under the name of the schema itself is read,
in front of any payload and after any later requests, as one and the same version with the
fingerprint that was written, and leaves the payload. Under any name it is read as the version of
that name with that fingerprint, and is refused as unknown for as long as there is none. -/
theorem references_are_followed
    (hrun : registry.encode revision name schema = (.ok header, after)) :
    (name = schema.name → ∃ found, found.name = name ∧ found.fingerprint = schema.fingerprint ∧
      ∀ requests position payload,
        Reader.read ((after.serveAll requests).decode position name) (header ++ payload)
          = (.ok found, payload)) ∧
    ∀ requests position payload,
      Reader.read ((after.serveAll requests).decode position name) (header ++ payload)
        = (((after.serveAll requests).resolve? name schema.fingerprint).elim
            (.error (.unknown name schema.fingerprint position)) .ok, payload) := by
  obtain ⟨hregister, front, hname, rfl⟩ := of_encode hrun
  have hread := fun requests position payload =>
    read_decode (after.serveAll requests) schema.fingerprint hname position payload
  refine ⟨?_, hread⟩
  rintro rfl
  obtain ⟨-, found, hfound⟩ := exists_resolve?_of_register hregister rfl
  obtain ⟨-, hfoundName, hsame⟩ := of_resolve? hfound
  refine ⟨found, hfoundName, hsame, fun requests position payload => ?_⟩
  rw [hread, resolve?_serveAll requests hfound]
  rfl

theorem register_empty (schema : Schema) :
    empty.register schema = (.ok schema.fingerprint, empty.add schema) := rfl

/-- A reference to a first version is followed behind a version that is refused. -/
theorem references_are_followed_of_refusal :
    ∃ header found, empty.encode ⟨0, 0⟩ "order" ⟨"order", []⟩
        = (.ok header, empty.add ⟨"order", []⟩) ∧
      ((empty.add ⟨"order", []⟩).register ⟨"order", [{ name := "id", type := .int }]⟩).1
        = .error (.incompatible "order" [.missingField "id"]) ∧
      found.fingerprint = Schema.fingerprint ⟨"order", []⟩ ∧
      Reader.read (((empty.add ⟨"order", []⟩).serveAll
          [.register ⟨"order", [{ name := "id", type := .int }]⟩]).decode ⟨0, 0⟩ "order")
        (header ++ [7]) = (.ok found, [7]) := by
  have hname : encodeName ⟨0, 0⟩ "order" = .ok _ := encodeName_eq_ok_iff.2 ⟨by decide, rfl⟩
  have hrun := encode_eq_ok (register_empty ⟨"order", []⟩) hname
  obtain ⟨found, -, hsame, hread⟩ := (references_are_followed hrun).1 rfl
  exact ⟨_, found, hrun, by decide +kernel, hsame, hread _ _ _⟩

/-- A reference under another name than that of the schema is written and then refused. -/
theorem unknown_of_alias :
    ∃ header, empty.encode ⟨0, 0⟩ "alias" ⟨"order", []⟩ = (.ok header, empty.add ⟨"order", []⟩) ∧
      Reader.read ((empty.add ⟨"order", []⟩).decode ⟨0, 0⟩ "alias") (header ++ [7])
        = (.error (.unknown "alias" (Schema.fingerprint ⟨"order", []⟩) ⟨0, 0⟩), [7]) := by
  have hname : encodeName ⟨0, 0⟩ "alias" = .ok _ := encodeName_eq_ok_iff.2 ⟨by decide, rfl⟩
  refine ⟨_, encode_eq_ok (register_empty _) hname, ?_⟩
  rw [read_decode _ _ hname, resolve?_add, if_neg (by decide)]
  rfl

end CommitLog.Schema.Registry
