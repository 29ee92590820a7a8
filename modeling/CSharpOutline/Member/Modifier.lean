import CSharpOutline.Text.Word

/-!
# Modifiers

The keywords that may stand in front of a declaration, and the questions that are asked of a line
by way of them: does it declare a public member, does it carry a given modifier, does it mark the
end of the member above it.

A line is asked for whole words anywhere in it, while a declaration is read from its start, keyword
by keyword. Both are here because the scan relies on the two agreeing.
-/

namespace CSharpOutline

/-! ## The keywords -/

/-- The modifiers of members that are not public. -/
def restrictedAccess : List Text := ["protected", "private", "internal"].map String.toList

/-- The access modifiers. -/
def accessModifiers : List Text := "public".toList :: restrictedAccess

/-- The keywords that may stand in front of the type of a member. -/
def memberModifiers : List Text :=
  accessModifiers ++
    ["static", "virtual", "override", "abstract", "sealed", "async", "new", "readonly", "extern",
      "unsafe", "partial", "required", "volatile", "const", "event"].map String.toList

/-- The keywords that may stand in front of a type declaration. -/
def typeModifiers : List Text :=
  accessModifiers ++
    ["static", "abstract", "sealed", "partial", "unsafe", "new", "file", "readonly",
      "ref"].map String.toList

namespace Text

/-! ## Questions about a line -/

/-- Whether a line has the word `public`. -/
def declaresPublic (line : Text) : Bool := line.hasWord "public".toList

/-- Whether a line has a modifier of one or more words, such as `protected internal`, bounded as a
whole. -/
def carries (line modifier : Text) : Bool := line.hasPhrase modifier.fields

/-- Whether a line marks the end of the declaration above it: it is blank, or it has the modifier
of a member that is not public. -/
def endsMember (line : Text) : Bool := line.allBlank || restrictedAccess.any (line.hasWord ·)

/-! ## Keywords at the start of a declaration -/

/-- What follows the keyword that `t` starts with and the blanks after it, of which there is at
least one. -/
def afterKeyword? (keywords : List Text) (t : Text) : Option Text :=
  if keywords.contains (t.takeWhile fun c ↦ !isBlank c) then
    skipBlanks? (t.dropWhile fun c ↦ !isBlank c)
  else none

theorem length_lt_of_afterKeyword? {keywords : List Text} {t rest : Text}
    (h : afterKeyword? keywords t = some rest) : rest.length < t.length := by
  unfold afterKeyword? at h
  split at h
  · exact Nat.lt_of_lt_of_le (length_lt_of_skipBlanks? h) (List.dropWhile_suffix _).length_le
  · simp at h

/-- What follows the keywords at the start of `t`, and whether there is any. -/
def dropKeywords (keywords : List Text) (t : Text) : Bool × Text :=
  match _h : afterKeyword? keywords t with
  | none => (false, t)
  | some rest => (true, (dropKeywords keywords rest).2)
termination_by t.length
decreasing_by exact length_lt_of_afterKeyword? _h

/-- The text without the access modifiers, and the blanks around them, that it starts with. -/
def withoutAccess (t : Text) : Text :=
  match dropKeywords accessModifiers t.trimStart with
  | (true, rest) => rest
  | (false, _) => t

end Text

end CSharpOutline
