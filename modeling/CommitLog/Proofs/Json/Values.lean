import CommitLog.Proofs.Json.Texts

/-!
# JSON values, there and back

A value with no binary64 number in it (`FloatFree`) has a text that spells its tree
(`FloatFree.spells`), and no other such value has that tree (`FloatFree.eq_of_tree_eq`). If it is a
value as they are kept (`Exact`), the tree means that value again as long as it may open as many
levels as the value has (`Exact.value?_tree`). A value that opens more is refused.
-/

namespace CommitLog.Json

namespace Value

/-! ## Values without binary64 numbers -/

/-- No number in the value is a binary64 number. -/
inductive FloatFree : Value → Prop where
  | null : FloatFree .null
  | bool (b : Bool) : FloatFree (.bool b)
  | integer (n : Int) : FloatFree (.number (.integer n))
  | string (s : String) : FloatFree (.string s)
  | array (items : List Value) (free : ∀ item ∈ items, FloatFree item) : FloatFree (.array items)
  | object (members : List (String × Value)) (free : ∀ member ∈ members, FloatFree member.2) :
      FloatFree (.object members)

/-- Values as they are kept, without binary64 numbers: integers fit 64 bits, signed or unsigned, and
members stand in the order of their keys, each key once. -/
inductive Exact : Value → Prop where
  | null : Exact .null
  | bool (b : Bool) : Exact (.bool b)
  | integer (n : Int) (low : -(signedBound : Int) ≤ n) (high : n < unsignedBound) :
      Exact (.number (.integer n))
  | string (s : String) : Exact (.string s)
  | array (items : List Value) (exact : ∀ item ∈ items, Exact item) : Exact (.array items)
  | object (members : List (String × Value))
      (ascending : (members.map Prod.fst).Pairwise (· < ·))
      (exact : ∀ member ∈ members, Exact member.2) : Exact (.object members)

theorem Exact.floatFree {value : Value} (h : value.Exact) : value.FloatFree := by
  induction h with
  | null => exact .null
  | bool b => exact .bool b
  | integer n _ _ => exact .integer n
  | string s => exact .string s
  | array items _ ih => exact .array items ih
  | object members _ _ ih => exact .object members ih

mutual

/-- How many levels a value opens. -/
def depth : Value → Nat
  | null => 0
  | bool _ => 0
  | number _ => 0
  | string _ => 0
  | array items => itemsDepth items + 1
  | object members => membersDepth members + 1

/-- How many levels the deepest item opens. -/
def itemsDepth : List Value → Nat
  | [] => 0
  | item :: rest => max (depth item) (itemsDepth rest)

/-- How many levels the deepest member opens. -/
def membersDepth : List (String × Value) → Nat
  | [] => 0
  | (_, value) :: rest => max (depth value) (membersDepth rest)

end

theorem itemsDepth_cons_le {value : Value} {later : List Value} {n : Nat} :
    itemsDepth (value :: later) ≤ n ↔ value.depth ≤ n ∧ itemsDepth later ≤ n := Nat.max_le

theorem membersDepth_cons_le {key : String} {value : Value} {later : List (String × Value)}
    {n : Nat} : membersDepth ((key, value) :: later) ≤ n ↔
      value.depth ≤ n ∧ membersDepth later ≤ n := Nat.max_le

/-! ## Trees -/

mutual

/-- The tree that the text of a value spells. -/
def tree : Value → Node
  | null => .null
  | bool b => .bool b
  | number n => .number n.literal
  | string s => .string (Piece.ofText s)
  | array items => .array (itemTrees items)
  | object members => .object (memberTrees members)

/-- The trees of items. -/
def itemTrees : List Value → List Node
  | [] => []
  | item :: rest => tree item :: itemTrees rest

/-- The trees of members beside their keys. -/
def memberTrees : List (String × Value) → List (List Piece × Node)
  | [] => []
  | (key, value) :: rest => (Piece.ofText key, tree value) :: memberTrees rest

end

/-- An item's text with its tree. -/
def item (value : Value) : List Char × Node := (value.text, value.tree)

/-- A member's key with its text and its tree. -/
def member (entry : String × Value) : String × List Char × Node :=
  (entry.1, entry.2.text, entry.2.tree)

theorem itemTexts_eq (items : List Value) : itemTexts items = (items.map item).map Prod.fst := by
  induction items with
  | nil => rfl
  | cons value later ih => rw [itemTexts, ih]; rfl

theorem itemTrees_eq (items : List Value) : itemTrees items = (items.map item).map Prod.snd := by
  induction items with
  | nil => rfl
  | cons value later ih => rw [itemTrees, ih]; rfl

theorem memberTexts_eq (members : List (String × Value)) :
    memberTexts members = (members.map member).map fun entry => (entry.1, entry.2.1) := by
  induction members with
  | nil => rfl
  | cons entry later ih => rw [memberTexts, ih]; rfl

theorem memberTrees_eq (members : List (String × Value)) :
    memberTrees members = (members.map member).map memberNode := by
  induction members with
  | nil => rfl
  | cons entry later ih => rw [memberTrees, ih]; rfl

/-- **The text of a value without binary64 numbers spells its tree.** -/
theorem FloatFree.spells {value : Value} (h : value.FloatFree) : Spells value.text value.tree := by
  induction h with
  | null => exact spells_null
  | bool b => exact spells_bool b
  | integer n => exact spells_integer n
  | string s => exact spells_string s
  | array items _ ih =>
    rw [text, tree, itemTexts_eq, itemTrees_eq]
    refine spells_array fun entry hentry => ?_
    obtain ⟨value, hvalue, rfl⟩ := List.mem_map.1 hentry
    exact ih value hvalue
  | object members _ ih =>
    rw [text, tree, memberTexts_eq, memberTrees_eq]
    refine spells_object fun entry hentry => ?_
    obtain ⟨found, hfound, rfl⟩ := List.mem_map.1 hentry
    exact ih found hfound

/-! ## Whose a tree is -/

/-- Rows are the same if their images are, and if no two of their items have the same image. -/
theorem eq_of_map_eq {α β : Type} {f : α → β} {row other : List α}
    (h : ∀ a ∈ row, ∀ b ∈ other, f a = f b → a = b) (hmap : row.map f = other.map f) :
    row = other := by
  induction row generalizing other with
  | nil => exact (List.map_eq_nil_iff.1 hmap.symm).symm
  | cons a row ih =>
    obtain ⟨b, other, rfl, hfirst, hlater⟩ := List.map_eq_cons_iff.1 hmap.symm
    have hsame : a = b := h a List.mem_cons_self b List.mem_cons_self hfirst.symm
    rw [hsame, ih (fun x hx y hy => h x (List.mem_cons_of_mem _ hx) y (List.mem_cons_of_mem _ hy))
      hlater.symm]

/-- **A tree is that of one value at most.** -/
theorem FloatFree.eq_of_tree_eq {value other : Value} (h : value.FloatFree) (hother : other.FloatFree)
    (htree : value.tree = other.tree) : value = other := by
  induction h generalizing other with
  | null => cases hother <;> simp_all [tree]
  | bool b => cases hother <;> simp_all [tree]
  | integer n =>
    cases hother with
    | integer m =>
      rw [tree, tree, Number.literal_integer, Number.literal_integer, Node.number.injEq] at htree
      rw [NumberLiteral.ofInteger_inj htree]
    | _ => simp [tree] at htree
  | string s =>
    cases hother with
    | string t =>
      rw [tree, tree, Node.string.injEq] at htree
      rw [Piece.ofText_inj htree]
    | _ => simp [tree] at htree
  | array items _ ih =>
    cases hother with
    | array others free =>
      rw [tree, tree, Node.array.injEq, itemTrees_eq, itemTrees_eq, List.map_map,
        List.map_map] at htree
      rw [eq_of_map_eq (fun a ha b hb hsame => ih a ha (free b hb) hsame) htree]
    | _ => simp [tree] at htree
  | object members _ ih =>
    cases hother with
    | object others free =>
      rw [tree, tree, Node.object.injEq, memberTrees_eq, memberTrees_eq, List.map_map,
        List.map_map] at htree
      refine congrArg Value.object (eq_of_map_eq (fun a ha b hb hsame => ?_) htree)
      obtain ⟨hkey, hvalue⟩ := Prod.mk.inj hsame
      exact Prod.ext (Piece.ofText_inj hkey) (ih a ha (free b hb) hvalue)
    | _ => simp [tree] at htree

/-! ## What a tree means -/

/-- A member goes behind all members of lesser keys. -/
theorem putMember_of_lt {key : String} {kept : List (String × Value)}
    (h : ∀ entry ∈ kept, entry.1 < key) (value : Value) :
    putMember key value kept = kept ++ [(key, value)] := by
  induction kept with
  | nil => rfl
  | cons entry later ih =>
    have hfirst := h entry List.mem_cons_self
    have hlater := ih fun x hx => h x (List.mem_cons_of_mem _ hx)
    unfold putMember
    rw [if_neg (String.lt_asymm hfirst), if_neg (fun heq => String.lt_irrefl _ (heq ▸ hfirst)),
      hlater]
    rfl

/-- Members in order stay as they are. -/
theorem foldl_putMember {members kept : List (String × Value)}
    (h : ((kept ++ members).map Prod.fst).Pairwise (· < ·)) :
    members.foldl (fun kept (key, value) => putMember key value kept) kept = kept ++ members := by
  induction members generalizing kept with
  | nil => exact (List.append_nil kept).symm
  | cons entry later ih =>
    have hkept : ∀ x ∈ kept, x.1 < entry.1 := by
      rw [List.map_append, List.pairwise_append] at h
      intro x hx
      exact h.2.2 x.1 (List.mem_map_of_mem hx) entry.1 (by simp)
    calc later.foldl _ (putMember entry.1 entry.2 kept)
        = later.foldl _ (kept ++ [entry]) := by rw [putMember_of_lt hkept]
      _ = kept ++ [entry] ++ later := ih (by simpa using h)
      _ = kept ++ entry :: later := by simp

theorem itemValues?_itemTrees {items : List Value} {depth : Nat}
    (h : ∀ item ∈ items, item.tree.value? depth = if item.depth ≤ depth then some item else none) :
    Node.itemValues? depth (itemTrees items)
      = if itemsDepth items ≤ depth then some items else none := by
  induction items with
  | nil => simp [itemTrees, itemsDepth, Node.itemValues?]
  | cons value later ih =>
    have hfirst := h value List.mem_cons_self
    have hlater := ih fun x hx => h x (List.mem_cons_of_mem _ hx)
    rw [itemTrees, Node.itemValues?, hfirst, hlater]
    by_cases hvalue : value.depth ≤ depth
    · by_cases hrest : itemsDepth later ≤ depth
      · simp [itemsDepth_cons_le, hvalue, hrest]
      · simp [itemsDepth_cons_le, hvalue, hrest]
    · simp [itemsDepth_cons_le, hvalue]

theorem memberValues?_memberTrees {members : List (String × Value)} {depth : Nat}
    (h : ∀ entry ∈ members,
      entry.2.tree.value? depth = if entry.2.depth ≤ depth then some entry.2 else none) :
    Node.memberValues? depth (memberTrees members)
      = if membersDepth members ≤ depth then some members else none := by
  induction members with
  | nil => simp [memberTrees, membersDepth, Node.memberValues?]
  | cons entry later ih =>
    obtain ⟨key, value⟩ := entry
    have hfirst := h (key, value) List.mem_cons_self
    have hlater := ih fun x hx => h x (List.mem_cons_of_mem _ hx)
    rw [memberTrees, Node.memberValues?, Piece.text?_ofText, hfirst, hlater]
    by_cases hvalue : value.depth ≤ depth
    · by_cases hrest : membersDepth later ≤ depth
      · simp [membersDepth_cons_le, hvalue, hrest]
      · simp [membersDepth_cons_le, hvalue, hrest]
    · simp [membersDepth_cons_le, hvalue]

/-- **The tree of an exact value means that value**, if it may open as many levels. -/
theorem Exact.value?_tree {value : Value} (h : value.Exact) (depth : Nat) :
    value.tree.value? depth = if value.depth ≤ depth then some value else none := by
  induction h generalizing depth with
  | null => simp [tree, Value.depth, Node.value?]
  | bool b => simp [tree, Value.depth, Node.value?]
  | integer n low high =>
    simp [tree, Value.depth, Node.value?, Number.literal_integer,
      NumberLiteral.value?_ofInteger low high]
  | string s => simp [tree, Value.depth, Node.value?, Piece.text?_ofText]
  | array items _ ih =>
    cases depth with
    | zero => simp [tree, Value.depth, Node.value?]
    | succ depth =>
      rw [tree, Node.value?, itemValues?_itemTrees fun item hitem => ih item hitem depth,
        Value.depth]
      by_cases hdepth : itemsDepth items ≤ depth
      · simp [hdepth]
      · simp [hdepth]
  | object members ascending _ ih =>
    cases depth with
    | zero => simp [tree, Value.depth, Node.value?]
    | succ depth =>
      rw [tree, Node.value?, memberValues?_memberTrees fun entry hentry => ih entry hentry depth,
        Value.depth]
      by_cases hdepth : membersDepth members ≤ depth
      · have hfold := @foldl_putMember members [] ascending
        simp [hdepth, hfold]
      · simp [hdepth]

/-- No other value has the tree of the null. -/
theorem tree_eq_null_iff (value : Value) : value.tree = .null ↔ value = .null := by
  cases value <;> simp [tree]

end Value

end CommitLog.Json
