import CommitLog.Named
import Mathlib.Data.List.Nodup

/-!
# Looking things up

What is looked up by one key does not change when what is there for another is taken away, or put
in its place.
-/

namespace CommitLog

variable {κ β : Type} [BEq κ] [LawfulBEq κ] {entries : List (κ × β)} {key other : κ} {value : β}

theorem mem_of_lookup (h : entries.lookup key = some value) : (key, value) ∈ entries := by
  obtain ⟨front, later, hentries, -⟩ := List.lookup_eq_some_iff.1 h
  rw [hentries]
  exact List.mem_append_right _ List.mem_cons_self

/-- A key that is there once is found with what is there for it. -/
theorem lookup_of_mem (hdistinct : (entries.map Prod.fst).Nodup) (hmem : (key, value) ∈ entries) :
    entries.lookup key = some value := by
  cases hlookup : entries.lookup key with
  | none =>
    have hne := List.lookup_eq_none_iff.1 hlookup (key, value) hmem
    simp at hne
  | some found =>
    have hsame := List.inj_on_of_nodup_map hdistinct (mem_of_lookup hlookup) hmem rfl
    rw [(Prod.mk.inj hsame).2]

/-- A key is found if it is there. -/
theorem isSome_lookup_iff : (entries.lookup key).isSome = true ↔ key ∈ entries.map Prod.fst := by
  constructor
  · intro hsome
    obtain ⟨value, hvalue⟩ := Option.isSome_iff_exists.1 hsome
    exact List.mem_map_of_mem (mem_of_lookup hvalue)
  · intro hmem
    obtain ⟨entry, hentry, rfl⟩ := List.mem_map.1 hmem
    by_contra hnone
    have hne := List.lookup_eq_none_iff.1 (Option.not_isSome_iff_eq_none.1 hnone) entry hentry
    simp at hne

theorem lookup_filter_ne (hne : other ≠ key) :
    (entries.filter fun (first, _) => first != other).lookup key = entries.lookup key := by
  induction entries with
  | nil => rfl
  | cons head later ih =>
    obtain ⟨first, value⟩ := head
    by_cases hfirst : first = other
    · have hdiffer : (key == first) = false := by
        rw [hfirst]
        simpa using Ne.symm hne
      rw [List.filter_cons_of_neg (by simp [hfirst]), ih, List.lookup_cons, hdiffer]
    · rw [List.filter_cons_of_pos (by simpa using hfirst), List.lookup_cons, List.lookup_cons, ih]

theorem lookup_filter_self (key : κ) (entries : List (κ × β)) :
    (entries.filter fun (first, _) => first != key).lookup key = none := by
  rw [List.lookup_eq_none_iff]
  intro entry hentry
  have hne : entry.1 ≠ key := by simpa using (List.mem_filter.1 hentry).2
  simpa using Ne.symm hne

namespace Named

variable {α : Type}

theorem lookup_drop (things : Named α) (name other : String) :
    (things.drop name).lookup other = if other = name then none else things.lookup other := by
  unfold drop
  split
  next hsame => rw [hsame, lookup_filter_self]
  next hne => exact lookup_filter_ne (Ne.symm hne)

theorem lookup_put (things : Named α) (name : String) (thing : α) (other : String) :
    (things.put name thing).lookup other
      = if other = name then some thing else things.lookup other := by
  unfold put
  split
  next hsame => rw [hsame, List.lookup_cons_self]
  next hne =>
    have hdiffer : (other == name) = false := by simpa using hne
    simp only [List.lookup_cons, hdiffer, lookup_filter_ne (Ne.symm hne)]

end Named

end CommitLog
