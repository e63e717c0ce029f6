import Mathlib
import SchemaCodec.Proofs.Json.Members
import SchemaCodec.Proofs.Json.Scanning

/-!
# Proofs.Json.RoundTrip — values read back from their compact text

- `Json.Printable`: values without doubles, with integers of 64 bits, with the members of every
  object in ascending order of their keys, and with a bounded number of containers open at once.
- `Document.Reads`: the shape of a value is read from its compact text in front of a delimiter.
- `Json.Printable.reads`: every printable value is read so, by induction on the value.
- `Json.parse?_compact`: the text of a printable value denotes that value.

The reader counts its depth down from twice the length of the text. A value needs twice its own
length less one, the items or members of a container twice theirs.
-/

namespace SchemaCodec

open Numeric (fitsInt64 fitsUInt64 isDigit)

/-! ## Printable values -/

/-- A value that comes back from its text, with at most `levels` containers open at once. -/
inductive Json.Printable : Nat → Json → Prop where
  | null (levels : Nat) : Printable levels .null
  | bool (levels : Nat) (b : Bool) : Printable levels (.bool b)
  | integer (levels : Nat) (n : Int) (h : fitsInt64 n = true ∨ fitsUInt64 n = true) :
      Printable levels (.ofInt n)
  | string (levels : Nat) (s : String) : Printable levels (.string s)
  | array (levels : Nat) (items : List Json) (h : ∀ v ∈ items, Printable levels v) :
      Printable (levels + 1) (.array items)
  | object (levels : Nat) (members : List (String × Json))
      (hkeys : members.Pairwise fun a b => a.1 < b.1) (h : ∀ m ∈ members, Printable levels m.2) :
      Printable (levels + 1) (.object members)

namespace Json

/-- A sign or a digit is no other character that a value may start with. -/
theorem ne_of_number_front {c : Char} (h : c = '-' ∨ isDigit c = true) :
    ∀ x ∈ [' ', '\t', '\n', '\r', ']', '\x7b', '[', '"', 'n', 't', 'f'], c ≠ x := by
  have hnone : ∀ x ∈ [' ', '\t', '\n', '\r', ']', '\x7b', '[', '"', 'n', 't', 'f'],
      ¬ (x = '-' ∨ isDigit x = true) := by simp [isDigit]
  intro x hx heq
  exact hnone x hx (heq ▸ h)

theorem isBlank_of_number_front {c : Char} (h : c = '-' ∨ isDigit c = true) :
    Document.isBlank c = false := by
  have hne := ne_of_number_front h
  simp only [List.forall_mem_cons] at hne
  simp [Document.isBlank, hne]

/-- The text of a value starts with no blank, and with no bracket that closes an array. -/
theorem compactChars_front {levels : Nat} {j : Json} (h : Printable levels j) :
    ∃ c cs, compactChars j = c :: cs ∧ Document.isBlank c = false ∧ c ≠ ']' := by
  cases h with
  | null => exact ⟨'n', _, by rw [compactChars], by decide, by decide⟩
  | bool levels b =>
    cases b
    · exact ⟨'f', _, rfl, by decide, by decide⟩
    · exact ⟨'t', _, rfl, by decide, by decide⟩
  | integer levels n h =>
    rcases Document.literal_integer_front n with ⟨c, cs, htext, hfront⟩
    exact ⟨c, cs, by rw [ofInt, compactChars, htext], isBlank_of_number_front hfront,
      ne_of_number_front hfront ']' (by decide)⟩
  | string levels s => exact ⟨'"', _, by rw [compactChars]; rfl, by decide, by decide⟩
  | array levels items h => exact ⟨'[', _, by rw [compactChars]; rfl, by decide, by decide⟩
  | object levels members hkeys h =>
    exact ⟨'\x7b', _, by rw [compactChars]; rfl, by decide, by decide⟩

end Json

namespace Document

/-! ## One step of the reader -/

theorem skipBlanks_cons {c : Char} (h : isBlank c = false) (cs : List Char) :
    skipBlanks (c :: cs) = c :: cs := by
  rw [skipBlanks, List.dropWhile_cons, h]
  rfl

/-- A bracket with a value behind it opens an array of one or more items. -/
theorem value_array {c : Char} (hblank : isBlank c = false) (hclose : c ≠ ']') (fuel : Nat)
    (cs : List Char) :
    value (fuel + 1) ('[' :: c :: cs) =
      (items fuel (c :: cs)).map fun (vs, rest) => (.array vs, rest) := by
  have hbracket := skipBlanks_cons (show isBlank '[' = false by decide) (c :: cs)
  have hskip := skipBlanks_cons hblank cs
  rw [value, hbracket]
  simp [hskip, hclose]

/-- A brace with a quote behind it opens an object of one or more members. -/
theorem value_object (fuel : Nat) (cs : List Char) :
    value (fuel + 1) ('\x7b' :: '"' :: cs) =
      (members fuel ('"' :: cs)).map fun (ms, rest) => (.object ms, rest) :=
  rfl

theorem value_string (fuel : Nat) (cs : List Char) :
    value (fuel + 1) ('"' :: cs) = (string? cs).map fun (s, rest) => (.string s, rest) :=
  rfl

/-- What starts with a sign or a digit is a number. -/
theorem value_number {c : Char} (h : c = '-' ∨ isDigit c = true) (fuel : Nat) (cs : List Char) :
    value (fuel + 1) (c :: cs) =
      (literal? (c :: cs)).map fun (l, rest) => (.number l, rest) := by
  have hne := Json.ne_of_number_front h
  simp only [List.forall_mem_cons] at hne
  rw [value, skipBlanks_cons (Json.isBlank_of_number_front h)]
  simp [hne]

section Lists

variable {fuel : Nat} {s rest : List Char} {d : Document} {key : Option String}

theorem items_last (h : value fuel s = some (d, ']' :: rest)) :
    items (fuel + 1) s = some ([d], rest) := by
  rw [items, h]
  rfl

theorem items_next (h : value fuel s = some (d, ',' :: rest)) :
    items (fuel + 1) s = (items fuel rest).map fun (vs, rest) => (d :: vs, rest) := by
  rw [items, h]
  rfl

theorem members_last {body : List Char} (hkey : string? body = some (key, ':' :: s))
    (h : value fuel s = some (d, '\x7d' :: rest)) :
    members (fuel + 1) ('"' :: body) = some ([(key, d)], rest) := by
  have hquote := skipBlanks_cons (show isBlank '"' = false by decide) body
  have hcolon := skipBlanks_cons (show isBlank ':' = false by decide) s
  rw [members, hquote]
  simp only [hkey, hcolon, h]
  rfl

theorem members_next {body : List Char} (hkey : string? body = some (key, ':' :: s))
    (h : value fuel s = some (d, ',' :: rest)) :
    members (fuel + 1) ('"' :: body) =
      (members fuel rest).map fun (ms, rest) => ((key, d) :: ms, rest) := by
  have hquote := skipBlanks_cons (show isBlank '"' = false by decide) body
  have hcolon := skipBlanks_cons (show isBlank ':' = false by decide) s
  rw [members, hquote]
  simp only [hkey, hcolon, h]
  rfl

end Lists

/-! ## Whole values -/

/-- The shape of a value is read from its text in front of a delimiter. -/
def Reads (levels : Nat) (j : Json) : Prop :=
  ∃ d : Document, d.valueWithin? levels = some j ∧
    ∀ rest fuel, Delimited rest → 2 * j.compactChars.length ≤ fuel + 1 →
      value fuel (j.compactChars ++ rest) = some (d, rest)

/-- A value has at least one character, as the reader finds nothing at depth zero. -/
theorem Reads.length_pos {levels : Nat} {j : Json} (h : Reads levels j) :
    0 < j.compactChars.length := by
  rcases h with ⟨d, -, hread⟩
  by_contra hzero
  have hnone := hread [] 0 trivial (by omega)
  rw [value] at hnone
  cases hnone

/-- It is enough to look at depths that are not zero. -/
theorem reads_of_value {levels : Nat} {j : Json} {d : Document}
    (hvalue : d.valueWithin? levels = some j) (hpos : 0 < j.compactChars.length)
    (h : ∀ rest fuel, Delimited rest → 2 * j.compactChars.length ≤ fuel + 2 →
      value (fuel + 1) (j.compactChars ++ rest) = some (d, rest)) : Reads levels j := by
  refine ⟨d, hvalue, ?_⟩
  intro rest fuel hrest hfuel
  obtain ⟨k, rfl⟩ : ∃ k, fuel = k + 1 := ⟨fuel - 1, by omega⟩
  exact h rest k hrest hfuel

/-- A list of items is read item by item. -/
theorem reads_items {levels : Nat} {v : Json} {vs : List Json} (h : ∀ w ∈ v :: vs, Reads levels w) :
    ∃ ds, itemsWithin? levels ds = some (v :: vs) ∧
      ∀ rest fuel, 2 * (Json.compactItems true (v :: vs)).length ≤ fuel →
        items fuel (Json.compactItems true (v :: vs) ++ ']' :: rest) = some (ds, rest) := by
  induction vs generalizing v with
  | nil =>
    have hpos := (h v List.mem_cons_self).length_pos
    rcases h v List.mem_cons_self with ⟨d, hvalue, hread⟩
    have htext : Json.compactItems true [v] = v.compactChars := by
      simp [Json.compactItems]
    refine ⟨[d], by simp [itemsWithin?, hvalue], ?_⟩
    intro rest fuel hfuel
    rw [htext] at hfuel ⊢
    obtain ⟨k, rfl⟩ : ∃ k, fuel = k + 1 := ⟨fuel - 1, by omega⟩
    exact items_last (hread (']' :: rest) k (.inr (.inl rfl)) hfuel)
  | cons w vs ih =>
    rcases h v List.mem_cons_self with ⟨d, hvalue, hread⟩
    rcases ih fun x hx => h x (List.mem_cons_of_mem _ hx) with ⟨ds, hvalues, hrest⟩
    have htext : Json.compactItems true (v :: w :: vs) =
        v.compactChars ++ ',' :: Json.compactItems true (w :: vs) := by
      simp [Json.compactItems]
    refine ⟨d :: ds, by simp [itemsWithin?, hvalue, hvalues], ?_⟩
    intro rest fuel hfuel
    rw [htext, List.length_append, List.length_cons] at hfuel
    obtain ⟨k, rfl⟩ : ∃ k, fuel = k + 1 := ⟨fuel - 1, by omega⟩
    have hfirst := hread (',' :: (Json.compactItems true (w :: vs) ++ ']' :: rest)) k (.inl rfl)
      (by omega)
    rw [htext, List.append_assoc, List.cons_append, items_next hfirst, hrest rest k (by omega)]
    rfl

/-- The text of members starts with the key and the value of the first one. -/
theorem compactMembers_append (key : String) (v : Json) (ms : List (String × Json))
    (rest : List Char) :
    Json.compactMembers true ((key, v) :: ms) ++ rest =
      '"' :: (key.toList.flatMap Json.escape ++ '"' :: ':' :: (v.compactChars ++
        (Json.compactMembers false ms ++ rest))) := by
  simp [Json.compactMembers, Json.quote]

/-- A list of members is read member by member. -/
theorem reads_members {levels : Nat} {m : String × Json} {ms : List (String × Json)}
    (h : ∀ a ∈ m :: ms, Reads levels a.2) :
    ∃ ds, membersWithin? levels ds = some (m :: ms) ∧
      ∀ rest fuel, 2 * (Json.compactMembers true (m :: ms)).length ≤ fuel →
        members fuel (Json.compactMembers true (m :: ms) ++ '\x7d' :: rest) = some (ds, rest) := by
  induction ms generalizing m with
  | nil =>
    rcases m with ⟨key, v⟩
    have hfirst : Reads levels v := h (key, v) List.mem_cons_self
    rcases hfirst with ⟨d, hvalue, hread⟩
    have hlength := congrArg List.length (compactMembers_append key v [] [])
    simp only [List.append_nil, List.length_cons, List.length_append] at hlength
    refine ⟨[(some key, d)], by simp [membersWithin?, hvalue], ?_⟩
    intro rest fuel hfuel
    obtain ⟨k, rfl⟩ : ∃ k, fuel = k + 1 := ⟨fuel - 1, by omega⟩
    have hmember := hread ('\x7d' :: rest) k (.inr (.inr rfl)) (by omega)
    exact (congrArg _ (compactMembers_append key v [] _)).trans
      (members_last (string?_quote key _) hmember)
  | cons m' ms ih =>
    rcases m with ⟨key, v⟩
    have hfirst : Reads levels v := h (key, v) List.mem_cons_self
    rcases hfirst with ⟨d, hvalue, hread⟩
    rcases ih fun a ha => h a (List.mem_cons_of_mem _ ha) with ⟨ds, hvalues, hrest⟩
    have hcomma : Json.compactMembers false (m' :: ms) =
        ',' :: Json.compactMembers true (m' :: ms) := by
      simp [Json.compactMembers]
    have hlength := congrArg List.length (compactMembers_append key v (m' :: ms) [])
    rw [hcomma] at hlength
    simp only [List.append_nil, List.length_cons, List.length_append] at hlength
    refine ⟨(some key, d) :: ds, by simp [membersWithin?, hvalue, hvalues], ?_⟩
    intro rest fuel hfuel
    obtain ⟨k, rfl⟩ : ∃ k, fuel = k + 1 := ⟨fuel - 1, by omega⟩
    have hmember := hread (',' :: (Json.compactMembers true (m' :: ms) ++ '\x7d' :: rest)) k
      (.inl rfl) (by omega)
    rw [compactMembers_append, hcomma, List.cons_append,
      members_next (string?_quote key _) hmember, hrest rest k (by omega)]
    rfl

theorem reads_bool (levels : Nat) (b : Bool) : Reads levels (.bool b) := by
  refine reads_of_value (d := .bool b) rfl ?_ ?_
  · cases b <;> simp [Json.compactChars, Json.boolText]
  · intro rest fuel _ _
    cases b <;> rfl

theorem reads_integer {n : Int} (h : fitsInt64 n = true ∨ fitsUInt64 n = true) (levels : Nat) :
    Reads levels (.ofInt n) := by
  rcases literal_integer_front n with ⟨c, cs, hliteral, hfront⟩
  have htext : Json.compactChars (.ofInt n) = c :: cs := by
    rw [Json.ofInt, Json.compactChars, hliteral]
  refine reads_of_value (d := .number (spelling n)) ?_ (by simp [htext]) ?_
  · rw [valueWithin?, Literal.number?_spelling h]
    rfl
  · intro rest fuel hrest _
    have hread := literal?_integer n hrest
    rw [hliteral, List.cons_append] at hread
    rw [htext, List.cons_append, value_number hfront, hread]
    rfl

theorem reads_string (levels : Nat) (s : String) : Reads levels (.string s) := by
  have htext : ∀ rest, Json.compactChars (.string s) ++ rest =
      '"' :: (s.toList.flatMap Json.escape ++ '"' :: rest) := by
    simp [Json.compactChars, Json.quote]
  refine reads_of_value (d := .string (some s)) rfl (by simp [Json.compactChars, Json.quote]) ?_
  intro rest fuel _ _
  rw [htext, value_string, string?_quote]
  rfl

/-- An array opens a level, and is read item by item behind its bracket. -/
theorem reads_array {levels : Nat} {items : List Json}
    (hprintable : ∀ v ∈ items, Json.Printable levels v) (h : ∀ v ∈ items, Reads levels v) :
    Reads (levels + 1) (.array items) := by
  cases items with
  | nil =>
    refine reads_of_value (d := .array []) rfl (by simp [Json.compactChars]) ?_
    intro rest fuel _ _
    rfl
  | cons v vs =>
    rcases reads_items h with ⟨ds, hvalues, hread⟩
    have htext : ∀ rest, Json.compactChars (.array (v :: vs)) ++ rest =
        '[' :: (Json.compactItems true (v :: vs) ++ ']' :: rest) := by
      simp [Json.compactChars]
    have hlength := congrArg List.length (htext [])
    simp only [List.append_nil, List.length_cons, List.length_append] at hlength
    refine reads_of_value (d := .array ds) ?_ (by omega) ?_
    · rw [valueWithin?, hvalues]
      rfl
    · intro rest fuel _ hfuel
      have hitems := hread rest fuel (by omega)
      -- The reader looks at the first character of the first item.
      rcases Json.compactChars_front (hprintable v List.mem_cons_self) with
        ⟨c, cs, hfront, hblank, hclose⟩
      have hbody : Json.compactItems true (v :: vs) ++ ']' :: rest =
          c :: (cs ++ (Json.compactItems false vs ++ ']' :: rest)) := by
        simp [Json.compactItems, hfront]
      rw [htext, hbody, value_array hblank hclose, ← hbody, hitems]
      rfl

/-- An object opens a level, and is read member by member behind its brace. Its members are sorted
already. -/
theorem reads_object {levels : Nat} {members : List (String × Json)}
    (hkeys : members.Pairwise fun a b => a.1 < b.1) (h : ∀ m ∈ members, Reads levels m.2) :
    Reads (levels + 1) (.object members) := by
  cases members with
  | nil =>
    refine reads_of_value (d := .object []) rfl (by simp [Json.compactChars]) ?_
    intro rest fuel _ _
    rfl
  | cons m ms =>
    rcases reads_members h with ⟨ds, hvalues, hread⟩
    have htext : ∀ rest, Json.compactChars (.object (m :: ms)) ++ rest =
        '\x7b' :: (Json.compactMembers true (m :: ms) ++ '\x7d' :: rest) := by
      simp [Json.compactChars]
    have hlength := congrArg List.length (htext [])
    simp only [List.append_nil, List.length_cons, List.length_append] at hlength
    refine reads_of_value (d := .object ds) ?_ (by omega) ?_
    · rw [valueWithin?, hvalues, Option.map_some, Json.ofMembers_of_ascending hkeys]
    · intro rest fuel _ hfuel
      have hmembers := hread rest fuel (by omega)
      -- The reader looks at the quote in front of the first key.
      obtain ⟨tail, hbody⟩ : ∃ tail,
          Json.compactMembers true (m :: ms) ++ '\x7d' :: rest = '"' :: tail := by
        simp [Json.compactMembers, Json.quote]
      rw [htext, hbody, value_object, ← hbody, hmembers]
      rfl

end Document

/-- A printable value is read from its text. -/
theorem Json.Printable.reads {levels : Nat} {j : Json} (h : Json.Printable levels j) :
    Document.Reads levels j := by
  induction h with
  | null levels =>
    refine Document.reads_of_value (d := .null) rfl (by simp [compactChars]) ?_
    intro rest fuel _ _
    rfl
  | bool levels b => exact Document.reads_bool levels b
  | integer levels n hfits => exact Document.reads_integer hfits levels
  | string levels s => exact Document.reads_string levels s
  | array levels items h ih => exact Document.reads_array h ih
  | object levels members hkeys h ih => exact Document.reads_object hkeys ih

/-- The text of a printable value denotes that value. -/
theorem Json.parse?_compact {j : Json} (h : Json.Printable 127 j) :
    Json.parse? j.compact = some j := by
  rcases h.reads with ⟨d, hvalue, hread⟩
  have htext := hread [] (2 * j.compactChars.length + 2) trivial (by omega)
  rw [List.append_nil] at htext
  have hdocument : Document.parse? j.compact = some d := by
    simp [Document.parse?, compact, htext, Document.skipBlanks]
  rw [parse?, hdocument]
  exact hvalue

end SchemaCodec
