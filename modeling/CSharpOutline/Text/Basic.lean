/-!
# Text as a sequence of characters

Every offset, column and length of this library counts characters, whatever number of bytes they
take. Text is therefore a list of characters: cutting, searching and joining are the list
operations, and the remaining text of a reader is a suffix of the list.
-/

namespace CSharpOutline

/-- A text, as the sequence of its characters. -/
abbrev Text := List Char

namespace Text

/-! ## Reading a fixed word or up to a fixed character -/

/-- What follows `word` in `t`, when `t` starts with `word`. -/
def expect? : (word t : Text) → Option Text
  | [], t => some t
  | _ :: _, [] => none
  | w :: word, c :: t => if c = w then expect? word t else none

@[simp] theorem expect?_nil (t : Text) : expect? [] t = some t := by
  rw [expect?]

theorem expect?_eq_some_iff {word t rest : Text} :
    expect? word t = some rest ↔ t = word ++ rest := by
  induction word generalizing t with
  | nil => simp [expect?]
  | cons w word ih =>
    cases t with
    | nil => simp [expect?]
    | cons c t =>
      by_cases h : c = w
      · simp [expect?, h, ih]
      · simp [expect?, h]

def startsWith (t word : Text) : Bool := (expect? word t).isSome

theorem startsWith_iff {t word : Text} : t.startsWith word = true ↔ ∃ rest, t = word ++ rest := by
  simp [startsWith, Option.isSome_iff_exists, expect?_eq_some_iff]

/-- What follows the first `c` of `t`, when there is one. -/
def after? (c : Char) : Text → Option Text
  | [] => none
  | d :: t => if d = c then some t else after? c t

theorem after?_eq_some_iff {c : Char} {t rest : Text} :
    after? c t = some rest ↔ ∃ before, c ∉ before ∧ t = before ++ c :: rest := by
  induction t with
  | nil => simp [after?]
  | cons d t ih =>
    by_cases h : d = c
    · subst h
      simp only [after?, ite_true, Option.some.injEq]
      constructor
      · rintro rfl
        exact ⟨[], by simp, rfl⟩
      · rintro ⟨before, hmem, heq⟩
        cases before with
        | nil => exact (List.cons.inj heq).2
        | cons b before =>
          obtain ⟨rfl, -⟩ := List.cons.inj heq
          exact absurd List.mem_cons_self hmem
    · simp only [after?, if_neg h, ih]
      constructor
      · rintro ⟨before, hmem, rfl⟩
        exact ⟨d :: before, by simp [hmem, Ne.symm h], rfl⟩
      · rintro ⟨before, hmem, heq⟩
        cases before with
        | nil => exact absurd (List.cons.inj heq).1 h
        | cons b before =>
          obtain ⟨rfl, rfl⟩ := List.cons.inj heq
          exact ⟨before, fun h' ↦ hmem (List.mem_cons_of_mem _ h'), rfl⟩

theorem length_lt_of_after? {c : Char} {t rest : Text} (h : after? c t = some rest) :
    rest.length < t.length := by
  obtain ⟨before, -, rfl⟩ := after?_eq_some_iff.mp h
  simp
  omega

/-! ## Lines -/

/-- The stretches between the line breaks of a text: one more of them than breaks. -/
def lines : Text → List Text
  | [] => [[]]
  | c :: t => if c = '\n' then [] :: lines t else (lines t).modifyHead (c :: ·)

theorem lines_ne_nil (t : Text) : t.lines ≠ [] := by
  induction t with
  | nil => simp [lines]
  | cons c t ih =>
    by_cases h : c = '\n'
    · simp [lines, h]
    · simpa [lines, h] using ih

/-- Joining the lines with line feeds gives back the text. -/
theorem intercalate_lines (t : Text) : ['\n'].intercalate t.lines = t := by
  induction t with
  | nil => rfl
  | cons c t ih =>
    obtain ⟨line, rest, hl⟩ := List.exists_cons_of_ne_nil (lines_ne_nil t)
    rw [hl] at ih
    by_cases h : c = '\n'
    · rw [lines, if_pos h, hl, List.intercalate_cons_cons, ih, h]
      rfl
    · rw [lines, if_neg h, hl, List.modifyHead_cons]
      cases rest with
      | nil => simpa using ih
      | cons next rest =>
        rw [List.intercalate_cons_cons] at ih ⊢
        rw [← ih]
        rfl

/-- The text up to and including its first line break. -/
def firstLine : Text → Text
  | [] => []
  | c :: t => if c = '\n' then [c] else c :: firstLine t

/-- The text after its first line break. -/
def afterFirstLine : Text → Text
  | [] => []
  | c :: t => if c = '\n' then t else afterFirstLine t

theorem firstLine_append_afterFirstLine (t : Text) : t.firstLine ++ t.afterFirstLine = t := by
  induction t with
  | nil => rfl
  | cons c t ih =>
    by_cases h : c = '\n'
    · simp [firstLine, afterFirstLine, h]
    · simp [firstLine, afterFirstLine, h, ih]

end Text

end CSharpOutline
