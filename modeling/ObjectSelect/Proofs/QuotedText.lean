import ObjectSelect.Literal

/-!
# Reading quoted texts back

SQL reads what stands between single quotes as a text: a quote that is written twice is one quote of
the text, and the first quote that is not written twice ends it. `Text.scanQuoted?` reads in this
way, with one character of lookahead, and gives the text with what is left behind it.

Quotes are doubled one by one, so the reader is never in doubt where it stands after a part of the
text: it goes on with whatever follows (`Text.scanInside?_doubleQuotes_append`). Hence a string
literal is read as the text that it was made from, and nothing of the text is taken for SQL. Only
what comes after the literal could change that: a quote there would be read as the second half of a
doubled one (`Literal.scanQuoted?_render_iff`).
-/

set_option autoImplicit false
set_option relaxedAutoImplicit false

namespace ObjectSelect

namespace Text

/-- Reads on inside a quoted text, up to and including the quote that ends it. Gives what was read
and what is left; there is neither if no quote ends the text. -/
def scanInside? : List Char → Option (List Char × List Char)
  | [] => none
  | '\'' :: '\'' :: rest => (scanInside? rest).map (Prod.map ('\'' :: ·) id)
  | '\'' :: rest => some ([], rest)
  | c :: rest => (scanInside? rest).map (Prod.map (c :: ·) id)

/-- Reads the quoted text that another text begins with. -/
def scanQuoted? (text : String) : Option (String × String) :=
  match text.toList with
  | '\'' :: rest => (scanInside? rest).map (Prod.map String.ofList String.ofList)
  | _ => none

theorem scanInside?_of_ne {c : Char} (h : c ≠ '\'') (rest : List Char) :
    scanInside? (c :: rest) = (scanInside? rest).map (Prod.map (c :: ·) id) := by
  simp [scanInside?, h]

/-- A quote that no other follows ends the text. -/
theorem scanInside?_of_head?_ne {rest : List Char} (h : rest.head? ≠ some '\'') :
    scanInside? ('\'' :: rest) = some ([], rest) := by
  cases rest with
  | nil => rfl
  | cons c rest =>
    have hc : c ≠ '\'' := by simpa using h
    simp [scanInside?, hc]

/-- The written form of a text is read as the text, and then what follows is read on. -/
theorem scanInside?_doubleQuotes_append (cs rest : List Char) :
    scanInside? (doubleQuotes cs ++ rest) = (scanInside? rest).map (Prod.map (cs ++ ·) id) := by
  induction cs with
  | nil =>
    rw [doubleQuotes, List.nil_append]
    exact Option.map_id'.symm
  | cons c cs ih =>
    by_cases hc : c = '\''
    · subst hc
      rw [doubleQuotes, if_pos rfl, List.cons_append, List.cons_append, scanInside?, ih,
        Option.map_map]
      rfl
    · rw [doubleQuotes, if_neg hc, List.cons_append, scanInside?_of_ne hc, ih, Option.map_map]
      rfl

/-- A text ends where its closing quote stands, unless another quote follows. -/
theorem scanInside?_closed_iff (cs rest : List Char) :
    scanInside? (doubleQuotes cs ++ '\'' :: rest) = some (cs, rest) ↔ rest.head? ≠ some '\'' := by
  rw [scanInside?_doubleQuotes_append]
  constructor
  · intro hscan hhead
    obtain ⟨rest, rfl⟩ : ∃ later, rest = '\'' :: later := by
      cases rest with
      | nil => simp at hhead
      | cons c later => exact ⟨later, by simpa using hhead⟩
    -- The two quotes are read as one, so more than `cs` is read.
    rw [scanInside?] at hscan
    simp at hscan
  · intro hhead
    rw [scanInside?_of_head?_ne hhead]
    simp

/-- What is read is the written form of a text with a closing quote, so nothing else is taken for
one. -/
theorem eq_of_scanInside?_eq_some {cs read left : List Char}
    (h : scanInside? cs = some (read, left)) : cs = doubleQuotes read ++ '\'' :: left := by
  fun_induction scanInside? cs generalizing read left with
  | case1 => simp at h
  | case2 rest ih =>
    obtain ⟨⟨later, left⟩, hlater, heq⟩ := Option.map_eq_some_iff.mp h
    obtain ⟨rfl, rfl⟩ := Prod.mk.inj heq
    rw [ih hlater]
    rfl
  | case3 rest hrest =>
    obtain ⟨rfl, rfl⟩ := Prod.mk.inj (Option.some.inj h)
    rfl
  | case4 c rest hdouble hclosing ih =>
    obtain ⟨⟨later, left⟩, hlater, heq⟩ := Option.map_eq_some_iff.mp h
    obtain ⟨rfl, rfl⟩ := Prod.mk.inj heq
    rw [ih hlater, doubleQuotes, if_neg hclosing]
    rfl

theorem scanQuoted?_quoted_append (text rest : String) :
    scanQuoted? (quoted text ++ rest) =
      (scanInside? (doubleQuotes text.toList ++ '\'' :: rest.toList)).map
        (Prod.map String.ofList String.ofList) := by
  have hchars : (quoted text ++ rest).toList =
      '\'' :: (doubleQuotes text.toList ++ '\'' :: rest.toList) := by
    simp [quoted]
  simp only [scanQuoted?, hchars]

/-- A quoted text is read back, and what stands behind it is left, just when no quote follows. -/
theorem scanQuoted?_quoted_append_iff (text rest : String) :
    scanQuoted? (quoted text ++ rest) = some (text, rest) ↔ rest.toList.head? ≠ some '\'' := by
  rw [scanQuoted?_quoted_append, ← scanInside?_closed_iff text.toList]
  constructor
  · intro hscan
    obtain ⟨⟨read, left⟩, hread, heq⟩ := Option.map_eq_some_iff.mp hscan
    obtain ⟨htext, hrest⟩ := Prod.mk.inj heq
    rw [hread, ← htext, ← hrest, String.toList_ofList, String.toList_ofList]
  · intro hscan
    rw [hscan, Option.map_some, Prod.map_apply, String.ofList_toList, String.ofList_toList]

/-- Only the written form of a text is read as the text. -/
theorem eq_quoted_append_of_scanQuoted? {written text rest : String}
    (h : scanQuoted? written = some (text, rest)) : written = quoted text ++ rest := by
  rw [scanQuoted?] at h
  split at h
  · next cs hchars =>
    obtain ⟨⟨read, left⟩, hread, heq⟩ := Option.map_eq_some_iff.mp h
    obtain ⟨rfl, rfl⟩ := Prod.mk.inj heq
    rw [← String.toList_inj, hchars, eq_of_scanInside?_eq_some hread]
    simp [quoted]
  · simp at h

/-- Different texts are written differently, since each is read back from what is written. -/
theorem quoted_injective {text other : String} (h : quoted text = quoted other) : text = other := by
  have hread (written : String) : scanQuoted? (quoted written) = some (written, "") := by
    have hend : ("" : String).toList.head? ≠ some '\'' := by simp
    simpa using (scanQuoted?_quoted_append_iff written "").mpr hend
  have hsame := hread text
  rw [h, hread other] at hsame
  exact (Prod.mk.inj (Option.some.inj hsame)).1.symm

end Text

/-- A string literal is read back as the text that it was made from. Whatever the text is, the
reader gives it and leaves all that follows the literal, just when no quote follows. Nothing else is
read as this text, and different texts have different literals. -/
theorem Literal.scanQuoted?_render_iff (text rest : String) :
    (Text.scanQuoted? ((string text).render ++ rest) = some (text, rest) ↔
      rest.toList.head? ≠ some '\'') ∧
    (∀ written : String, Text.scanQuoted? written = some (text, rest) →
      written = (string text).render ++ rest) ∧
    ∀ other : String, (string text).render = (string other).render → text = other := by
  refine ⟨Text.scanQuoted?_quoted_append_iff text rest, ?_, ?_⟩
  · intro written hscan
    exact Text.eq_quoted_append_of_scanQuoted? hscan
  · intro other hsame
    exact Text.quoted_injective hsame

/-- A quote at either end of the text stands next to one that delimits the literal. -/
example :
    Text.scanQuoted? ((Literal.string "'O'Neil'").render ++ ")") = some ("'O'Neil'", ")") := by
  decide +kernel

end ObjectSelect
