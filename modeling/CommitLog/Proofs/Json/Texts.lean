import CommitLog.Proofs.Json.Integers
import CommitLog.Proofs.Json.Strings

/-!
# Compact texts and their trees

A compact text spells a tree (`Spells`) if the tree is what is read, whatever may follow a value and
with any fuel that is twice as long as the text. Each scalar spells its node, and a row of texts
between brackets spells the row of their nodes, so the text of a whole value spells the tree that
has its parts. A text that spells a tree is parsed as that tree (`Spells.parse?`).
-/

namespace CommitLog.Json

open Node (readValue readItems readMembers)

/-! ## Blanks -/

theorem skipBlanks_cons {c : Char} (h : isBlank c = false) (cs : List Char) :
    skipBlanks (c :: cs) = c :: cs := by
  unfold skipBlanks
  exact List.dropWhile_cons_of_neg (by simp [h])

theorem skipBlanks_skipBlanks (cs : List Char) : skipBlanks (skipBlanks cs) = skipBlanks cs := by
  induction cs with
  | nil => rfl
  | cons c cs ih =>
    cases h : isBlank c with
    | true =>
      have hskip : skipBlanks (c :: cs) = skipBlanks cs := List.dropWhile_cons_of_pos h
      rw [hskip, ih]
    | false => rw [skipBlanks_cons h, skipBlanks_cons h]

theorem readValue_skipBlanks (fuel : Nat) (cs : List Char) :
    readValue fuel (skipBlanks cs) = readValue fuel cs := by
  cases fuel with
  | zero => rfl
  | succ fuel => rw [readValue, readValue, skipBlanks_skipBlanks]

/-! ## Steps of reading -/

theorem readValue_quote (fuel : Nat) (rest : List Char) : readValue (fuel + 1) ('"' :: rest)
    = (readString rest).map fun (pieces, rest) => (.string pieces, rest) := rfl

/-- What begins with a sign or a digit is a number. -/
theorem readValue_of_number {c : Char} (h : c = '-' ∨ 0x30 ≤ c.toNat ∧ c.toNat < 0x3A) (fuel : Nat)
    (cs : List Char) : readValue (fuel + 1) (c :: cs)
      = (readNumber (c :: cs)).map fun (literal, rest) => (.number literal, rest) := by
  have hblank : isBlank c = false := by
    simp only [isBlank, Bool.or_eq_false_iff, beq_eq_false_iff_ne]
    rcases h with rfl | h
    · decide
    · omega
  rw [readValue, skipBlanks_cons hblank]
  split
  case h_7 => rfl
  all_goals
    next heq =>
      obtain ⟨rfl, -⟩ := List.cons.inj heq
      exact absurd h (by decide)

/-- No value begins with a closing bracket. -/
theorem readValue_closing (fuel : Nat) (cs : List Char) : readValue fuel (']' :: cs) = none := by
  cases fuel <;> rfl

theorem readItems_succ (fuel : Nat) (cs : List Char) : readItems (fuel + 1) cs
    = (readValue fuel cs).bind fun (item, rest) =>
        match skipBlanks rest with
        | ',' :: rest => (readItems fuel rest).bind fun (later, rest) => some (item :: later, rest)
        | ']' :: rest => some ([item], rest)
        | _ => none := rfl

theorem readMembers_succ (fuel : Nat) (cs : List Char) : readMembers (fuel + 1) ('"' :: cs)
    = (readString cs).bind fun (key, rest) =>
        match skipBlanks rest with
        | ':' :: rest =>
          (readValue fuel rest).bind fun (value, rest) =>
            match skipBlanks rest with
            | ',' :: rest =>
              (readMembers fuel rest).bind fun (later, rest) => some ((key, value) :: later, rest)
            | '}' :: rest => some ([(key, value)], rest)
            | _ => none
        | _ => none := rfl

/-- A row of items behind an opening bracket is an array. -/
theorem readValue_of_items {fuel : Nat} {cs rest : List Char} {items : List Node}
    (h : readItems fuel cs = some (items, rest)) :
    readValue (fuel + 1) ('[' :: cs) = some (.array items, rest) := by
  have hskip : readItems fuel (skipBlanks cs) = some (items, rest) := by
    cases fuel with
    | zero => cases h
    | succ fuel =>
      rw [readItems_succ] at h ⊢
      rwa [readValue_skipBlanks]
  rw [readValue, skipBlanks_cons (by decide)]
  split
  case h_5 heq =>
    obtain ⟨-, rfl⟩ := List.cons.inj heq
    split
    next hclosing =>
      -- a row that begins with the closing bracket would not have been read
      rw [hclosing] at hskip
      cases fuel with
      | zero => cases h
      | succ fuel => simp [readItems_succ, readValue_closing] at hskip
    next => rw [hskip]; rfl
  case h_7 hne _ => exact absurd rfl (hne cs)
  all_goals
    next heq => exact absurd (List.cons.inj heq).1 (by decide)

/-- A row of members behind an opening brace is an object. -/
theorem readValue_of_members {fuel : Nat} {cs rest : List Char}
    {members : List (List Piece × Node)}
    (h : readMembers fuel ('"' :: cs) = some (members, rest)) :
    readValue (fuel + 1) ('{' :: '"' :: cs) = some (.object members, rest) := by
  show (readMembers fuel ('"' :: cs)).map (fun (members, rest) => (Node.object members, rest)) = _
  rw [h]
  rfl

/-! ## Spelling -/

/-- The text is read as the node, whatever may follow it. Every two steps down consume a letter at
least, which bounds the fuel. -/
def Spells (text : List Char) (node : Node) : Prop :=
  ∀ fuel rest, 2 * (spelled text).length ≤ fuel → Ends rest →
    readValue fuel (spelled text ++ rest) = some (node, rest)

variable {text : List Char} {node : Node}

/-- Inside a text that is long enough there is fuel for a step. -/
theorem Spells.intro
    (hlength : 0 < (spelled text).length)
    (h : ∀ fuel rest, 2 * (spelled text).length ≤ fuel + 1 → Ends rest →
      readValue (fuel + 1) (spelled text ++ rest) = some (node, rest)) : Spells text node := by
  intro fuel rest hfuel hrest
  obtain ⟨fuel, rfl⟩ := Nat.exists_eq_succ_of_ne_zero (n := fuel) (by omega)
  exact h fuel rest hfuel hrest

/-- **A text that spells a tree is parsed as that tree.** -/
theorem Spells.parse? (h : Spells text node) :
    Node.parse? (Text.Utf8.encode (String.ofList text)) = some node := by
  have hlength : (Text.Utf8.encode (String.ofList text)).length = (spelled text).length := by
    rw [← letters_encode, Node.letters, List.length_map]
  unfold Node.parse?
  have hread := h (2 * (spelled text).length + 2) [] (by omega) ends_nil
  rw [List.append_nil] at hread
  rw [letters_encode, hlength, hread]
  rfl

theorem spells_null : Spells (Value.text .null) .null := by
  refine .intro (by decide) fun fuel rest _ _ => ?_
  simp only [Value.text]
  rw [spelled_of_isAscii (by decide)]
  rfl

theorem spells_bool (b : Bool) : Spells (Value.text (.bool b)) (.bool b) := by
  cases b
  all_goals
    refine .intro (by decide) fun fuel rest _ _ => ?_
    simp only [Value.text]
    rw [spelled_of_isAscii (by decide)]
    rfl

theorem spells_string (s : String) : Spells (stringText s) (.string (Piece.ofText s)) := by
  have hquote : spelled (stringText s) = '"' :: spelled (s.toList.flatMap escapeChar ++ ['"']) :=
    spelled_cons_of_ascii (by decide) _
  refine .intro (by rw [hquote]; simp) fun fuel rest _ _ => ?_
  rw [hquote, List.cons_append, readValue_quote, readString_stringText]
  rfl

/-! ## Numbers -/

/-- The number that is read from the text of a number. -/
def Number.literal (n : Number) : NumberLiteral := ((readNumber n.text).map Prod.fst).getD default

theorem Number.literal_integer (n : Int) : (Number.integer n).literal = .ofInteger n := by
  unfold Number.literal Number.text
  have hread := readNumber_integerText n ends_nil
  rw [List.append_nil] at hread
  rw [hread]
  rfl

/-- The text of an integer is a sign or a digit and digits behind it. -/
theorem exists_cons_integerText (n : Int) : ∃ c cs, Number.integerText n = c :: cs ∧
    (c = '-' ∨ 0x30 ≤ c.toNat ∧ c.toNat < 0x3A) ∧ isAscii (c :: cs) := by
  have hdigits := fun c hc => Decimal.toNat_of_mem_text (n := n.natAbs) (c := c) hc
  have hascii : isAscii (Decimal.text n.natAbs) := by
    refine List.all_eq_true.2 fun c hc => decide_eq_true ?_
    have := hdigits c hc
    omega
  unfold Number.integerText
  split
  next => exact ⟨'-', _, rfl, .inl rfl, hascii⟩
  next =>
    obtain ⟨c, cs, htext⟩ := List.exists_cons_of_ne_nil (Decimal.text_ne_nil n.natAbs)
    rw [htext] at hascii
    exact ⟨c, cs, htext, .inr (hdigits c (htext ▸ List.mem_cons_self)), hascii⟩

theorem spells_integer (n : Int) :
    Spells (Number.text (.integer n)) (.number (Number.integer n).literal) := by
  obtain ⟨c, cs, htext, hfirst, hascii⟩ := exists_cons_integerText n
  have hspelled : spelled (Number.integerText n) = c :: cs := by
    rw [htext, spelled_of_isAscii hascii]
  refine .intro (by simp only [Number.text]; rw [hspelled]; simp) fun fuel rest _ hrest => ?_
  have hread := readNumber_integerText n hrest
  simp only [Number.text]
  rw [htext, List.cons_append] at hread
  rw [hspelled, List.cons_append, readValue_of_number hfirst, hread, Number.literal_integer]
  rfl

/-! ## Rows -/

theorem spelled_comma (front back : List Char) :
    spelled (front ++ ',' :: back) = spelled front ++ ',' :: spelled back := by
  rw [spelled_append, spelled_cons_of_ascii (by decide)]

theorem exists_joinText_cons (first : List Char) (later : List (List Char)) :
    ∃ tail, joinText (first :: later) = first ++ tail := by
  cases later with
  | nil => exact ⟨[], (List.append_nil first).symm⟩
  | cons second later => exact ⟨_, rfl⟩

/-- A row of one or more texts is read as the row of their nodes, up to the closing bracket. -/
theorem readItems_joinText {items : List (List Char × Node)} (hne : items ≠ [])
    (h : ∀ item ∈ items, Spells item.1 item.2) (fuel : Nat)
    (hfuel : 2 * (spelled (joinText (items.map Prod.fst))).length + 1 ≤ fuel) (rest : List Char) :
    readItems fuel (spelled (joinText (items.map Prod.fst)) ++ ']' :: rest)
      = some (items.map Prod.snd, rest) := by
  induction items generalizing fuel with
  | nil => exact absurd rfl hne
  | cons item later ih =>
    obtain ⟨fuel, rfl⟩ := Nat.exists_eq_succ_of_ne_zero (n := fuel) (by omega)
    have hitem := h item List.mem_cons_self fuel
    cases later with
    | nil =>
      simp only [List.map_cons, List.map_nil, joinText] at hfuel ⊢
      have hread := hitem (']' :: rest) (by omega) (ends_cons (by simp) rest)
      rw [readItems_succ, hread]
      rfl
    | cons next later =>
      have hjoin : joinText ((item :: next :: later).map Prod.fst)
          = item.1 ++ ',' :: joinText ((next :: later).map Prod.fst) := rfl
      rw [hjoin, spelled_comma, List.length_append, List.length_cons] at hfuel
      have hread := fun tail => hitem (',' :: tail) (by omega) (ends_cons (by simp) tail)
      have hlater := ih (by simp) (fun x hx => h x (List.mem_cons_of_mem _ hx)) fuel (by omega)
      rw [hjoin, spelled_comma, List.append_assoc, List.cons_append, readItems_succ, hread]
      simp only [Option.bind_some, skipBlanks_cons (c := ',') (by decide), hlater]
      rfl

theorem spells_array {items : List (List Char × Node)} (h : ∀ item ∈ items, Spells item.1 item.2) :
    Spells (arrayText (items.map Prod.fst)) (.array (items.map Prod.snd)) := by
  have hspelled : spelled (arrayText (items.map Prod.fst))
      = '[' :: (spelled (joinText (items.map Prod.fst)) ++ [']']) := by
    unfold arrayText
    rw [spelled_cons_of_ascii (by decide), spelled_append]
    rfl
  refine .intro (by rw [hspelled]; simp) fun fuel rest hfuel _ => ?_
  rw [hspelled, List.length_cons, List.length_append, List.length_singleton] at hfuel
  rw [hspelled, List.cons_append, List.append_assoc, List.singleton_append]
  by_cases hne : items = []
  · subst hne
    rfl
  · exact readValue_of_items (readItems_joinText hne h fuel (by omega) rest)

/-! ## Members -/

/-- The text of a member: its key, a colon and its value. -/
def memberText (member : String × List Char × Node) : List Char :=
  stringText member.1 ++ ':' :: member.2.1

/-- The node of a member beside its key. -/
def memberNode (member : String × List Char × Node) : List Piece × Node :=
  (Piece.ofText member.1, member.2.2)

theorem spelled_memberText (member : String × List Char × Node) :
    spelled (memberText member)
      = '"' :: (spelled (member.1.toList.flatMap escapeChar ++ ['"'])
          ++ ':' :: spelled member.2.1) := by
  unfold memberText stringText
  rw [List.cons_append, spelled_cons_of_ascii (by decide), spelled_append,
    spelled_cons_of_ascii (by decide)]

/-- One or more members are read up to the closing brace. -/
theorem readMembers_joinText {members : List (String × List Char × Node)} (hne : members ≠ [])
    (h : ∀ member ∈ members, Spells member.2.1 member.2.2) (fuel : Nat)
    (hfuel : 2 * (spelled (joinText (members.map memberText))).length + 1 ≤ fuel)
    (rest : List Char) :
    readMembers fuel (spelled (joinText (members.map memberText)) ++ '}' :: rest)
      = some (members.map memberNode, rest) := by
  induction members generalizing fuel with
  | nil => exact absurd rfl hne
  | cons member later ih =>
    obtain ⟨fuel, rfl⟩ := Nat.exists_eq_succ_of_ne_zero (n := fuel) (by omega)
    have hmember := h member List.mem_cons_self fuel
    cases later with
    | nil =>
      simp only [List.map_cons, List.map_nil, joinText] at hfuel ⊢
      rw [spelled_memberText] at hfuel ⊢
      simp only [List.length_cons, List.length_append] at hfuel
      have hread := hmember ('}' :: rest) (by omega) (ends_cons (by simp) rest)
      rw [List.cons_append, List.append_assoc, List.cons_append, readMembers_succ,
        readString_stringText]
      simp only [Option.bind_some, skipBlanks_cons (c := ':') (by decide), hread]
      rfl
    | cons next later =>
      have hjoin : joinText ((member :: next :: later).map memberText)
          = memberText member ++ ',' :: joinText ((next :: later).map memberText) := rfl
      rw [hjoin, spelled_comma, spelled_memberText] at hfuel
      simp only [List.length_cons, List.length_append] at hfuel
      have hread := fun tail => hmember (',' :: tail) (by omega) (ends_cons (by simp) tail)
      have hlater := ih (by simp) (fun x hx => h x (List.mem_cons_of_mem _ hx)) fuel (by omega)
      rw [hjoin, spelled_comma, spelled_memberText, List.append_assoc, List.cons_append,
        List.append_assoc, List.cons_append, List.cons_append, readMembers_succ,
        readString_stringText]
      simp only [Option.bind_some, skipBlanks_cons (c := ':') (by decide),
        skipBlanks_cons (c := ',') (by decide), hread, hlater]
      rfl

theorem objectText_eq (members : List (String × List Char × Node)) :
    objectText (members.map fun member => (member.1, member.2.1))
      = '{' :: (joinText (members.map memberText) ++ ['}']) := by
  unfold objectText
  rw [List.map_map]
  rfl

theorem spells_object {members : List (String × List Char × Node)}
    (h : ∀ member ∈ members, Spells member.2.1 member.2.2) :
    Spells (objectText (members.map fun member => (member.1, member.2.1)))
      (.object (members.map memberNode)) := by
  have hspelled : spelled (objectText (members.map fun member => (member.1, member.2.1)))
      = '{' :: (spelled (joinText (members.map memberText)) ++ ['}']) := by
    rw [objectText_eq, spelled_cons_of_ascii (by decide), spelled_append]
    rfl
  refine .intro (by rw [hspelled]; simp) fun fuel rest hfuel _ => ?_
  rw [hspelled, List.length_cons, List.length_append, List.length_singleton] at hfuel
  rw [hspelled, List.cons_append, List.append_assoc, List.singleton_append]
  cases members with
  | nil => rfl
  | cons member later =>
    have hread := readMembers_joinText (by simp) h fuel (by omega) rest
    obtain ⟨tail, hjoin⟩ := exists_joinText_cons (memberText member) (later.map memberText)
    rw [List.map_cons, hjoin, spelled_append, spelled_memberText, List.cons_append,
      List.cons_append] at hread ⊢
    exact readValue_of_members hread

end CommitLog.Json
