import CSharpOutline.Text.Blank
import CSharpOutline.Text.WordRanges

/-!
# Word characters and runs

Words are made of letters, numbers and the underscore. Two ways to look for a word live here: the
maximal runs of word characters, and a phrase matched in place with a word boundary on both sides.
A phrase may hold other characters too, so the second is the more general one; where a phrase is
made of word characters the two agree.
-/

namespace CSharpOutline

/-- Letters, numbers and the underscore. -/
def isWord (c : Char) : Bool :=
  if c.toNat < 0x80 then c.isAlphanum || c == '_'
  else wordRanges.any fun r ↦ r.1 ≤ c.toNat && c.toNat ≤ r.2

/-- The characters of a dotted name. -/
def isNamePart (c : Char) : Bool := isWord c || c == '.'

namespace Text

/-! ## Runs -/

/-- The maximal runs of characters of class `p`, from left to right. -/
def runs (p : Char → Bool) : Text → List Text
  | [] => []
  | c :: t =>
    if p c then
      if t.head?.any p then (runs p t).modifyHead (c :: ·) else [c] :: runs p t
    else runs p t

/-- The words of a text: its maximal runs of word characters. -/
def words (t : Text) : List Text := t.runs isWord

/-- The fields of a text: its maximal runs of characters that are not blank. -/
def fields (t : Text) : List Text := t.runs fun c ↦ !isBlank c

def hasWord (t word : Text) : Bool := t.words.contains word

/-- The text with each run of blanks made a single space, and none at either end. -/
def collapse (t : Text) : Text := [' '].intercalate t.fields

/-- Nothing but characters of class `p` stands in a run. -/
theorem forall_mem_of_mem_runs {p : Char → Bool} {t run : Text} (h : run ∈ t.runs p) :
    ∀ c ∈ run, p c = true := by
  induction t generalizing run with
  | nil => simp [runs] at h
  | cons d t ih =>
    by_cases hd : p d = true
    · by_cases ht : t.head?.any p = true
      · rw [runs, if_pos hd, if_pos ht] at h
        cases hr : runs p t with
        | nil => simp [hr] at h
        | cons r rs =>
          rw [hr] at h ih
          rcases List.mem_cons.mp h with rfl | h'
          · intro c hc
            rcases List.mem_cons.mp hc with rfl | hc'
            · exact hd
            · exact ih List.mem_cons_self c hc'
          · exact ih (List.mem_cons_of_mem _ h')
      · rw [runs, if_pos hd, if_neg ht] at h
        rcases List.mem_cons.mp h with rfl | h'
        · intro c hc
          rwa [List.mem_singleton.mp hc]
        · exact ih h'
    · rw [runs, if_neg hd] at h
      exact ih h

/-! ## Phrases -/

/-- Whether a word begins or ends between two neighbouring characters; the ends of the text count
as no character. -/
def atBoundary (before after : Option Char) : Bool := before.any isWord != after.any isWord

/-- What follows a phrase at the start of `t`: its words in order, one or more blanks between
each two. -/
def afterPhrase? : (phrase : List Text) → (t : Text) → Option Text
  | [], t => some t
  | [word], t => expect? word t
  | word :: phrase, t =>
    match (expect? word t).bind skipBlanks? with
    | none => none
    | some rest => afterPhrase? phrase rest

/-- The last character of a phrase. -/
def lastOf? (phrase : List Text) : Option Char := phrase.getLast?.bind List.getLast?

/-- Whether a phrase stands at the start of `t` with a word boundary on both sides, `before` being
the character in front of `t`. -/
def phraseHere (phrase : List Text) (before : Option Char) (t : Text) : Bool :=
  match afterPhrase? phrase t with
  | none => false
  | some rest => atBoundary before t.head? && atBoundary (lastOf? phrase) rest.head?

/-- Whether a phrase stands somewhere in `t`, `before` being the character in front of `t`. -/
def hasPhraseAfter (phrase : List Text) (before : Option Char) : Text → Bool
  | [] => false
  | c :: t => phraseHere phrase before (c :: t) || hasPhraseAfter phrase (some c) t

/-- Whether a phrase stands somewhere in the text, bounded as a whole. The empty phrase stands
nowhere. -/
def hasPhrase (t : Text) (phrase : List Text) : Bool :=
  !phrase.isEmpty && hasPhraseAfter phrase none t

/-! ## Names -/

/-- A name at the start of `t`: an optional `@` and one or more characters of class `p`, with what
follows it. -/
def name? (p : Char → Bool) (t : Text) : Option (Text × Text) :=
  let (mark, body) := match t with
    | '@' :: r => (['@'], r)
    | _ => ([], t)
  match body.takeWhile p with
  | [] => none
  | run => some (mark ++ run, body.dropWhile p)

end Text

end CSharpOutline
