import CommitLog.Proofs.Json.Values
import CommitLog.Schema

/-!
# Definitions of schemas, there and back

The canonical form of a schema is a definition that is parsed as the schema again, but for two
things (`Exact.parse?_canonicalForm`). A default that is null stands in the text like any other, and
is read as no default at all (`readBack`). And a definition opens three levels around a default, so
a default may open only so many more (`IsShallow`).

A default of a schema that passes validation is a scalar of its type, so none of this touches it
(`isShallow_of_flaw?`, `readBack_of_flaw?`).
-/

namespace CommitLog

open Json (Piece Spells memberNode)

/-! ## Fields -/

namespace Field

/-- The default of the field, if there is one, has no binary64 number in it. -/
def FloatFree (field : Field) : Prop := ∀ value ∈ field.default, value.FloatFree

/-- The default of the field, if there is one, is an exact value. -/
def Exact (field : Field) : Prop := ∀ value ∈ field.default, value.Exact

/-- How many levels the default opens. -/
def depth (field : Field) : Nat := (field.default.map Json.Value.depth).getD 0

/-- The field that is read where the field was written. -/
def readBack (field : Field) : Field :=
  match field.default with
  | some .null => { field with default := none }
  | _ => field

/-- The members of the text of a field, each with the tree that it spells. -/
def members (field : Field) : List (String × List Char × Json.Node) :=
  [("name", Json.stringText field.name, .string (Piece.ofText field.name)),
    ("type", field.type.toJsonText, .string (Piece.ofText field.type.name))]
  ++ (field.default.map fun value => ("default", value.text, value.tree)).toList

/-- The tree that the text of a field spells. -/
def tree (field : Field) : Json.Node := .object (field.members.map memberNode)

variable {field : Field}

theorem toJsonText_eq (field : Field) : field.toJsonText
    = Json.objectText (field.members.map fun member => (member.1, member.2.1)) := by
  unfold toJsonText members
  cases field.default <;> rfl

theorem Exact.floatFree (h : field.Exact) : field.FloatFree :=
  fun value hvalue => (h value hvalue).floatFree

theorem FloatFree.spells (h : field.FloatFree) : Spells field.toJsonText field.tree := by
  rw [toJsonText_eq]
  refine Json.spells_object fun member hmember => ?_
  unfold members at hmember
  rw [List.mem_append, List.mem_cons, List.mem_singleton, Option.mem_toList,
    Option.map_eq_some_iff] at hmember
  rcases hmember with (rfl | rfl) | ⟨value, hvalue, rfl⟩
  · exact Json.spells_string field.name
  · exact Json.spells_string field.type.name
  · exact (h value hvalue).spells

theorem ofNode?_string (t : FieldType) :
    FieldType.ofNode? (.string (Piece.ofText t.name)) = some t := by
  simp [FieldType.ofNode?, Json.Node.variant?, Piece.text?_ofText, FieldType.ofName?_name]

/-- The members of a field are found in the order of their names. -/
theorem record?_tree (field : Field) : field.tree.record? ["name", "type", "default"]
    = some [some (.string (Piece.ofText field.name)),
        some (.string (Piece.ofText field.type.name)), field.default.map Json.Value.tree] := by
  unfold tree members
  cases field.default <;>
    simp [Json.Node.record?, Json.Node.fillSlots, Json.Node.fillSlot, memberNode,
      Piece.text?_ofText]

/-- **A field is read back**, but for a null default, as long as its default may open as many
levels. -/
theorem Exact.ofNode?_tree (h : field.Exact) (depth : Nat) : Field.ofNode? depth field.tree
    = if field.depth ≤ depth - 1 then some field.readBack else none := by
  obtain ⟨name, type, default⟩ := field
  have hname : (Json.Node.string (Piece.ofText name)).text? = some name := Piece.text?_ofText name
  unfold Field.ofNode?
  rw [record?_tree]
  cases default with
  | none => simp [hname, ofNode?_string, Field.depth, readBack]
  | some value =>
    simp only [Option.map_some, Option.bind_eq_bind, Option.bind_some, hname, ofNode?_string]
    by_cases hnull : value = .null
    · subst hnull
      simp [Json.Value.tree, Field.depth, Json.Value.depth, readBack]
    · have hback : readBack ⟨name, type, some value⟩ = ⟨name, type, some value⟩ := by
        unfold readBack
        split
        next heq => exact absurd (Option.some.inj heq) hnull
        next => rfl
      have hdepth : Field.depth ⟨name, type, some value⟩ = value.depth := rfl
      rw [hback, hdepth]
      split
      next heq => cases heq
      next heq =>
        exact absurd ((Json.Value.tree_eq_null_iff value).1 (Option.some.inj heq)) hnull
      next found hfound =>
        obtain rfl := Option.some.inj hfound
        rw [(h value rfl).value?_tree]
        by_cases hfits : value.depth ≤ depth - 1
        · simp [hfits]
        · simp [hfits]

/-- A field without a null default is read back as it is. -/
theorem readBack_eq (h : field.default ≠ some .null) : field.readBack = field := by
  unfold readBack
  split
  next heq => exact absurd heq h
  next => rfl

end Field

/-! ## Schemas -/

namespace Schema

/-- No default has a binary64 number in it. -/
def FloatFree (schema : Schema) : Prop := ∀ field ∈ schema.fields, field.FloatFree

/-- The defaults of all fields are exact values. -/
def Exact (schema : Schema) : Prop := ∀ field ∈ schema.fields, field.Exact

/-- No default opens more levels than a text may open inside a definition. -/
def IsShallow (schema : Schema) : Prop :=
  ∀ field ∈ schema.fields, field.depth ≤ Json.maxDepth - 3

instance (schema : Schema) : Decidable schema.IsShallow :=
  inferInstanceAs (Decidable (∀ field ∈ schema.fields, field.depth ≤ Json.maxDepth - 3))

/-- The schema that is read where the schema was written. -/
def readBack (schema : Schema) : Schema :=
  { schema with fields := schema.fields.map Field.readBack }

/-- The members of the text of a schema, each with the tree that it spells. -/
def members (schema : Schema) : List (String × List Char × Json.Node) :=
  [("name", Json.stringText schema.name, .string (Piece.ofText schema.name)),
    ("fields", Json.arrayText (schema.fields.map Field.toJsonText),
      .array (schema.fields.map Field.tree))]

/-- The tree that the text of a schema spells. -/
def tree (schema : Schema) : Json.Node := .object (schema.members.map memberNode)

variable {schema : Schema}

theorem Exact.floatFree (h : schema.Exact) : schema.FloatFree :=
  fun field hfield => (h field hfield).floatFree

theorem FloatFree.spells (h : schema.FloatFree) : Spells schema.toJsonText schema.tree := by
  have htext : schema.toJsonText
      = Json.objectText (schema.members.map fun member => (member.1, member.2.1)) := rfl
  have hfields : Spells (Json.arrayText (schema.fields.map Field.toJsonText))
      (.array (schema.fields.map Field.tree)) := by
    have hrow : ∀ item ∈ schema.fields.map fun field => (field.toJsonText, field.tree),
        Spells item.1 item.2 := by
      intro item hitem
      obtain ⟨field, hfield, rfl⟩ := List.mem_map.1 hitem
      exact (h field hfield).spells
    simpa [List.map_map, Function.comp_def] using Json.spells_array hrow
  rw [htext]
  refine Json.spells_object fun member hmember => ?_
  unfold members at hmember
  rw [List.mem_cons, List.mem_singleton] at hmember
  rcases hmember with rfl | rfl
  · exact Json.spells_string schema.name
  · exact hfields

/-- Rows that are read one by one are read as a whole. -/
theorem mapM_eq_ite {α β : Type} {f : α → Option β} {g : α → β} {p : α → Prop} [DecidablePred p]
    {row : List α} (h : ∀ x ∈ row, f x = if p x then some (g x) else none) :
    row.mapM f = if ∀ x ∈ row, p x then some (row.map g) else none := by
  induction row with
  | nil => simp
  | cons x later ih =>
    have hfirst := h x List.mem_cons_self
    have hlater := ih fun y hy => h y (List.mem_cons_of_mem _ hy)
    rw [List.mapM_cons, hfirst, hlater]
    simp only [List.forall_mem_cons]
    by_cases hx : p x
    · by_cases hrest : ∀ y ∈ later, p y
      · rw [if_pos hx, if_pos hrest, if_pos ⟨hx, hrest⟩]
        rfl
      · have hboth : ¬(p x ∧ ∀ y ∈ later, p y) := fun hall => hrest hall.2
        rw [if_pos hx, if_neg hrest, if_neg hboth]
        rfl
    · have hboth : ¬(p x ∧ ∀ y ∈ later, p y) := fun hall => hx hall.1
      rw [if_neg hx, if_neg hboth]
      rfl

theorem record?_tree (schema : Schema) : schema.tree.record? ["name", "fields"]
    = some [some (.string (Piece.ofText schema.name)),
        some (.array (schema.fields.map Field.tree))] := by
  simp [tree, members, Json.Node.record?, Json.Node.fillSlots, Json.Node.fillSlot, memberNode,
    Piece.text?_ofText]

/-- **A definition is parsed as its schema**, but for null defaults, unless a default opens too many
levels. -/
theorem Exact.parse?_canonicalForm (h : schema.Exact) : parse? schema.canonicalForm
    = if schema.IsShallow then some schema.readBack else none := by
  have hname : (Json.Node.string (Piece.ofText schema.name)).text? = some schema.name :=
    Piece.text?_ofText schema.name
  have hfields : (schema.fields.map Field.tree).mapM (Field.ofNode? (Json.maxDepth - 2))
      = if schema.IsShallow then some (schema.fields.map Field.readBack) else none := by
    rw [List.mapM_map]
    exact mapM_eq_ite fun field hfield => (h field hfield).ofNode?_tree _
  unfold parse? canonicalForm
  rw [h.floatFree.spells.parse?, Option.bind_some, ofNode?, record?_tree]
  simp only [Option.bind_eq_bind, Option.bind_some, hname, Json.Node.list?, hfields]
  split <;> rfl

/-- A schema without null defaults is read back as it is. -/
theorem readBack_eq (h : ∀ field ∈ schema.fields, field.default ≠ some .null) :
    schema.readBack = schema := by
  unfold readBack
  rw [List.map_congr_left fun field hfield => Field.readBack_eq (h field hfield), List.map_id']

/-! ## Schemas that pass validation -/

/-- A default that a type accepts is a scalar other than the null. -/
theorem scalar_of_accepts {t : FieldType} {value : Json.Value} (h : t.accepts value) :
    value ≠ .null ∧ value.depth = 0 := by
  unfold FieldType.accepts at h
  split at h
  all_goals first
    | exact ⟨by simp, rfl⟩
    | cases h

theorem accepts_of_flawAmong? {seen : List String} {fields : List Field}
    (h : flawAmong? seen fields = none) :
    ∀ field ∈ fields, ∀ value ∈ field.default, field.type.accepts value := by
  induction fields generalizing seen with
  | nil => simp
  | cons first later ih =>
    unfold flawAmong? at h
    split at h
    next => cases h
    next =>
      cases hdefault : first.default with
      | none =>
        simp only [hdefault] at h
        intro field hfield
        rcases List.mem_cons.1 hfield with rfl | hfield
        · simp [hdefault]
        · exact ih h field hfield
      | some value =>
        simp only [hdefault] at h
        split at h
        next haccepts =>
          intro field hfield
          rcases List.mem_cons.1 hfield with rfl | hfield
          · simpa [hdefault] using haccepts
          · exact ih h field hfield
        next => cases h

theorem isShallow_of_flaw? (h : schema.flaw? = none) : schema.IsShallow := by
  intro field hfield
  unfold Field.depth
  cases hdefault : field.default with
  | none => simp
  | some value =>
    have hscalar := scalar_of_accepts (accepts_of_flawAmong? h field hfield value hdefault)
    simp [hscalar.2]

theorem readBack_of_flaw? (h : schema.flaw? = none) : schema.readBack = schema :=
  readBack_eq fun field hfield hnull =>
    (scalar_of_accepts (accepts_of_flawAmong? h field hfield .null hnull)).1 rfl

end Schema

end CommitLog
