import CSharpOutline.Proofs.Member.Joined
import Mathlib.Data.Nat.Find
import Mathlib.Data.Prod.Lex

/-!
# The pieces of a joined text

Joining numbered lines one after the other makes a text that grows by one piece for each line that
is not blank, with a space in front of the piece where one is put. So the characters of the text
are of two sorts. A character of a piece is found again, at the number of the line that added the
piece and in the column where it stands there (`locate_of_isFrom`). A separator belongs to no line:
it is the single space between two pieces that follow each other (`exists_isFrom_or_isSeparator`).

Segments and text are built side by side, and the tie between them is kept line by line: a new
segment starts where its piece does, behind all of the text so far, and nothing that is added later
changes what stands in front of it (`exists_segments`). Looking for the last segment that starts no
later than an offset therefore finds the line whose piece holds the offset.
-/

namespace CSharpOutline

open Text

namespace Joined

def pushLines (j : Joined) (lines : List (Int × Text)) : Joined :=
  lines.foldl (fun j line ↦ j.push line.1 line.2) j

/-- Numbered lines joined into one text. -/
def ofLines (lines : List (Int × Text)) : Joined := pushLines {} lines

def textOfFirst (lines : List (Int × Text)) (n : Nat) : Text := (ofLines (lines.take n)).text

/-- What line `n` adds to the text, apart from a separator. -/
def pieceOf (lines : List (Int × Text)) (n : Nat) : Text := lines[n]?.elim [] (piece ·.2)

/-- The offset behind the piece of line `n`. -/
def pieceEnd (lines : List (Int × Text)) (n : Nat) : Nat := (textOfFirst lines (n + 1)).length

/-- The offset at which the piece of line `n` starts. -/
def pieceStart (lines : List (Int × Text)) (n : Nat) : Nat :=
  pieceEnd lines n - (pieceOf lines n).length

/-- The character at offset `i` belongs to the piece that line `n` adds. -/
def IsFrom (lines : List (Int × Text)) (n i : Nat) : Prop :=
  pieceStart lines n ≤ i ∧ i < pieceEnd lines n

/-- Lines `m` and `n` add pieces that follow each other: no line between them adds one. -/
structure Follows (lines : List (Int × Text)) (m n : Nat) : Prop where
  lt : m < n
  left_ne_nil : pieceOf lines m ≠ []
  right_ne_nil : pieceOf lines n ≠ []
  between : ∀ l, m < l → l < n → pieceOf lines l = []

/-- The character at offset `i` is all that stands between two pieces that follow each other. -/
def IsSeparator (lines : List (Int × Text)) (i : Nat) : Prop :=
  ∃ m n, Follows lines m n ∧ i = pieceEnd lines m ∧ pieceStart lines n = i + 1

variable {lines : List (Int × Text)} {n i : Nat}

/-! ## The text, line by line -/

private theorem text_pushLines (j : Joined) (lines : List (Int × Text)) :
    (j.pushLines lines).text = join j.text (lines.map Prod.snd) := by
  induction lines generalizing j with
  | nil => rfl
  | cons line lines ih =>
    rw [pushLines, List.foldl_cons, ← pushLines, ih, text_push]
    rfl

theorem pushLines_append (j : Joined) (first rest : List (Int × Text)) :
    j.pushLines (first ++ rest) = (j.pushLines first).pushLines rest :=
  List.foldl_append

theorem ofLines_take_succ {line : Int × Text} (h : lines[n]? = some line) :
    ofLines (lines.take (n + 1)) = (ofLines (lines.take n)).push line.1 line.2 := by
  obtain ⟨hn, rfl⟩ := List.getElem?_eq_some_iff.mp h
  rw [List.take_succ_eq_append_getElem hn, ofLines, pushLines_append]
  rfl

theorem prefix_textOfFirst {m : Nat} (h : m ≤ n) :
    textOfFirst lines m <+: textOfFirst lines n := by
  obtain ⟨k, rfl⟩ := Nat.exists_eq_add_of_le h
  rw [textOfFirst, textOfFirst, ofLines, ofLines, List.take_add, pushLines_append,
    text_pushLines _ ((lines.drop m).take k)]
  exact prefix_join _ _

theorem textOfFirst_of_length_le (h : lines.length ≤ n) :
    textOfFirst lines n = (ofLines lines).text := by
  rw [textOfFirst, List.take_of_length_le h]

theorem prefix_text (lines : List (Int × Text)) (n : Nat) :
    textOfFirst lines n <+: (ofLines lines).text := by
  rw [← textOfFirst_of_length_le (Nat.le_max_right n lines.length)]
  exact prefix_textOfFirst (Nat.le_max_left _ _)

private theorem textOfFirst_zero (lines : List (Int × Text)) : textOfFirst lines 0 = [] := rfl

theorem textOfFirst_succ_of_nil (h : pieceOf lines n = []) :
    textOfFirst lines (n + 1) = textOfFirst lines n := by
  cases hline : lines[n]? with
  | none =>
    have hn := List.getElem?_eq_none_iff.mp hline
    rw [textOfFirst_of_length_le hn, textOfFirst_of_length_le (by omega)]
  | some line =>
    rw [pieceOf, hline] at h
    rw [textOfFirst, ofLines_take_succ hline, text_push, joinLine_of_nil h, textOfFirst]

theorem textOfFirst_succ_of_ne_nil (h : pieceOf lines n ≠ []) :
    textOfFirst lines (n + 1) = textOfFirst lines n ++
      separator (textOfFirst lines n) (pieceOf lines n) ++ pieceOf lines n := by
  cases hline : lines[n]? with
  | none =>
    rw [pieceOf, hline] at h
    exact absurd rfl h
  | some line =>
    rw [pieceOf, hline] at h ⊢
    rw [textOfFirst, ofLines_take_succ hline, text_push, joinLine_of_ne_nil h]
    rfl

private theorem textOfFirst_eq_of_between {m : Nat} (hmn : m ≤ n)
    (h : ∀ l, m ≤ l → l < n → pieceOf lines l = []) :
    textOfFirst lines n = textOfFirst lines m := by
  induction n, hmn using Nat.le_induction with
  | base => rfl
  | succ n hmn ih =>
    rw [textOfFirst_succ_of_nil (h n hmn (Nat.lt_succ_self n))]
    exact ih fun l hl hln ↦ h l hl (Nat.lt_succ_of_lt hln)

/-! ## Where pieces start and end

Pieces stand in the order of their lines and do not overlap, and the text grows by whole pieces,
with a separator in front of some. -/

theorem length_textOfFirst_le {m : Nat} (h : m ≤ n) :
    (textOfFirst lines m).length ≤ (textOfFirst lines n).length :=
  (prefix_textOfFirst h).length_le

theorem pieceEnd_eq (lines : List (Int × Text)) (n : Nat) :
    pieceEnd lines n = pieceStart lines n + (pieceOf lines n).length := by
  have hle : (pieceOf lines n).length ≤ pieceEnd lines n := by
    by_cases h : pieceOf lines n = []
    · simp [h]
    · rw [pieceEnd, textOfFirst_succ_of_ne_nil h, List.length_append]
      exact Nat.le_add_left _ _
  rw [pieceStart]
  omega

theorem pieceStart_eq (h : pieceOf lines n ≠ []) :
    pieceStart lines n = (textOfFirst lines n ++
      separator (textOfFirst lines n) (pieceOf lines n)).length := by
  have hend := pieceEnd_eq lines n
  rw [pieceEnd, textOfFirst_succ_of_ne_nil h, List.length_append] at hend
  omega

theorem le_pieceStart (lines : List (Int × Text)) (n : Nat) :
    (textOfFirst lines n).length ≤ pieceStart lines n := by
  by_cases h : pieceOf lines n = []
  · rw [pieceStart, h, pieceEnd, textOfFirst_succ_of_nil h]
    simp
  · rw [pieceStart_eq h]
    simp

theorem pieceEnd_le_pieceStart (lines : List (Int × Text)) {m : Nat} (h : m < n) :
    pieceEnd lines m ≤ pieceStart lines n :=
  (length_textOfFirst_le h).trans (le_pieceStart lines n)

theorem IsFrom.pieceOf_ne_nil (h : IsFrom lines n i) : pieceOf lines n ≠ [] := by
  intro hnil
  obtain ⟨hstart, hend⟩ := h
  rw [pieceEnd_eq, hnil] at hend
  simp only [List.length_nil] at hend
  omega

private theorem IsFrom.le_of_lt {m k : Nat} (hi : IsFrom lines m i) (hk : IsFrom lines n k)
    (hik : i < k) : m ≤ n := by
  by_contra hmn
  have hle := pieceEnd_le_pieceStart lines (Nat.lt_of_not_le hmn)
  have hstart := hi.1
  have hend := hk.2
  omega

theorem Follows.textOfFirst_eq {m : Nat} (h : Follows lines m n) :
    textOfFirst lines n = textOfFirst lines (m + 1) :=
  textOfFirst_eq_of_between h.lt fun l hl ↦ h.between l hl

private theorem exists_last_piece (h : textOfFirst lines n ≠ []) :
    ∃ m < n, pieceOf lines m ≠ [] ∧ ∀ l, m < l → l < n → pieceOf lines l = [] := by
  induction n with
  | zero => exact absurd (textOfFirst_zero lines) h
  | succ n ih =>
    by_cases hpiece : pieceOf lines n = []
    · rw [textOfFirst_succ_of_nil hpiece] at h
      obtain ⟨m, hmn, hm, hbetween⟩ := ih h
      refine ⟨m, by omega, hm, fun l hml hln ↦ ?_⟩
      rcases Nat.lt_succ_iff_lt_or_eq.mp hln with hln | rfl
      · exact hbetween l hml hln
      · exact hpiece
    · exact ⟨n, Nat.lt_succ_self n, hpiece, fun l hnl hln ↦ by omega⟩

/-! ## Separators

Between two pieces that follow each other there is nothing or a single space, and what there is is
told by the end of the one and the start of the other. -/

/-- No space is put between two pieces. -/
def IsTight (left right : Text) : Prop :=
  (∃ c ∈ left.getLast?, c ∈ tightAfter) ∨ ∃ c ∈ right.head?, c ∈ tightBefore

private theorem separator_of_isTight {left right : Text} (h : IsTight left right) :
    separator left right = [] := by
  rw [separator, if_pos]
  rcases h with ⟨c, hc, hmem⟩ | ⟨c, hc, hmem⟩
  · simp [Option.mem_def.mp hc, hmem]
  · simp [Option.mem_def.mp hc, hmem]

theorem separator_of_not_isTight {left right : Text} (hne : left ≠ []) (h : ¬IsTight left right) :
    separator left right = [' '] := by
  rw [IsTight, not_or] at h
  have hleft : left.getLast?.any tightAfter.contains = false := by
    rw [Option.any_eq_false_iff_get]
    exact fun hsome ↦ by simpa using fun hmem ↦ h.1 ⟨_, Option.get_mem hsome, hmem⟩
  have hright : right.head?.any tightBefore.contains = false := by
    rw [Option.any_eq_false_iff_get]
    exact fun hsome ↦ by simpa using fun hmem ↦ h.2 ⟨_, Option.get_mem hsome, hmem⟩
  rw [separator, if_neg]
  simp [hne, hleft, hright]

/-- What is put between two pieces is told by the end of the one and the start of the other. -/
theorem isTight_textOfFirst {m : Nat} (h : Follows lines m n) (right : Text) :
    IsTight (textOfFirst lines n) right ↔ IsTight (pieceOf lines m) right := by
  rw [IsTight, IsTight, h.textOfFirst_eq, textOfFirst_succ_of_ne_nil h.left_ne_nil,
    List.getLast?_append_of_ne_nil _ h.left_ne_nil]

theorem Follows.ne_nil {m : Nat} (h : Follows lines m n) : textOfFirst lines n ≠ [] := by
  rw [h.textOfFirst_eq, textOfFirst_succ_of_ne_nil h.left_ne_nil]
  exact List.append_ne_nil_of_right_ne_nil _ h.left_ne_nil

theorem pieceStart_of_follows {m : Nat} (h : Follows lines m n) :
    (IsTight (pieceOf lines m) (pieceOf lines n) ∧ pieceStart lines n = pieceEnd lines m) ∨
      ¬IsTight (pieceOf lines m) (pieceOf lines n) ∧ pieceStart lines n = pieceEnd lines m + 1 := by
  have hend : pieceEnd lines m = (textOfFirst lines n).length := by rw [h.textOfFirst_eq, pieceEnd]
  rw [pieceStart_eq h.right_ne_nil, hend, ← isTight_textOfFirst h]
  by_cases htight : IsTight (textOfFirst lines n) (pieceOf lines n)
  · exact .inl ⟨htight, by rw [separator_of_isTight htight, List.append_nil]⟩
  · refine .inr ⟨htight, ?_⟩
    rw [separator_of_not_isTight h.ne_nil htight, List.length_append, List.length_singleton]

private theorem Follows.eq_of_pieceEnd_eq {m m' n' : Nat} (h : Follows lines m n)
    (h' : Follows lines m' n') (heq : pieceEnd lines m = pieceEnd lines m') : m = m' := by
  have hlength : ∀ {l}, pieceOf lines l ≠ [] → pieceStart lines l < pieceEnd lines l := by
    intro l hl
    have hpos := List.length_pos_iff.mpr hl
    rw [pieceEnd_eq]
    omega
  have hm := hlength h.left_ne_nil
  have hm' := hlength h'.left_ne_nil
  rcases Nat.lt_trichotomy m m' with hlt | heq | hlt
  · have hle := pieceEnd_le_pieceStart lines hlt
    omega
  · exact heq
  · have hle := pieceEnd_le_pieceStart lines hlt
    omega

private theorem Follows.right_eq {m n' : Nat} (h : Follows lines m n) (h' : Follows lines m n') :
    n = n' := by
  rcases Nat.lt_trichotomy n n' with hlt | heq | hlt
  · exact absurd (h'.between n h.lt hlt) h.right_ne_nil
  · exact heq
  · exact absurd (h.between n' h'.lt hlt) h'.right_ne_nil

theorem isSeparator_iff {m : Nat} (h : Follows lines m n) :
    IsSeparator lines (pieceEnd lines m) ↔ ¬IsTight (pieceOf lines m) (pieceOf lines n) := by
  constructor
  · rintro ⟨m', n', h', hend, hstart⟩ htight
    obtain rfl := h.eq_of_pieceEnd_eq h' hend
    obtain rfl := h.right_eq h'
    rcases pieceStart_of_follows h with ⟨-, heq⟩ | ⟨hnot, -⟩
    · omega
    · exact hnot htight
  · intro hnot
    rcases pieceStart_of_follows h with ⟨htight, -⟩ | ⟨-, hstart⟩
    · exact absurd htight hnot
    · exact ⟨m, n, h, rfl, hstart⟩

/-- A separator is a space, and no line adds it as part of a piece. -/
theorem IsSeparator.eq_space (h : IsSeparator lines i) :
    (ofLines lines).text[i]? = some ' ' ∧ ∀ n, ¬IsFrom lines n i := by
  obtain ⟨m, n, hfollows, rfl, hstart⟩ := h
  have hend : pieceEnd lines m = (textOfFirst lines n).length := by
    rw [hfollows.textOfFirst_eq, pieceEnd]
  constructor
  · have htight := (isSeparator_iff hfollows).mp ⟨m, n, hfollows, rfl, hstart⟩
    rw [← isTight_textOfFirst hfollows] at htight
    obtain ⟨rest, hrest⟩ := prefix_text lines (n + 1)
    rw [← hrest, textOfFirst_succ_of_ne_nil hfollows.right_ne_nil,
      separator_of_not_isTight hfollows.ne_nil htight, hend]
    simp
  · rintro l ⟨hle, hlt⟩
    -- the piece would have to stand between the two
    rcases Nat.lt_or_ge l n with hln | hnl
    · rcases Nat.lt_or_ge m l with hml | hlm
      · have hempty := pieceEnd_eq lines l
        rw [hfollows.between l hml hln, List.length_nil] at hempty
        omega
      · have hle' : pieceEnd lines l ≤ pieceEnd lines m :=
          length_textOfFirst_le (Nat.succ_le_succ hlm)
        omega
    · rcases Nat.lt_or_eq_of_le hnl with hnl | rfl
      · have hle' := pieceEnd_le_pieceStart lines hnl
        have hend' := pieceEnd_eq lines n
        omega
      · omega

/-- Each character is a separator or belongs to the piece of a line. -/
theorem exists_isFrom_or_isSeparator (h : i < (ofLines lines).text.length) :
    IsSeparator lines i ∨ ∃ n < lines.length, IsFrom lines n i := by
  have hexists : ∃ n, i < pieceEnd lines n := by
    refine ⟨lines.length, ?_⟩
    rwa [pieceEnd, textOfFirst_of_length_le (Nat.le_succ _)]
  -- the line whose piece is the first to reach behind the character
  set n := Nat.find hexists with hn
  have hend : i < pieceEnd lines n := Nat.find_spec hexists
  have hfront : (textOfFirst lines n).length ≤ i := by
    cases hcases : n with
    | zero => simp [textOfFirst_zero]
    | succ m =>
      rw [← Nat.not_lt]
      exact Nat.find_min hexists (m := m) (by omega)
  have hpiece : pieceOf lines n ≠ [] := by
    intro hnil
    rw [pieceEnd, textOfFirst_succ_of_nil hnil] at hend
    omega
  by_cases hstart : pieceStart lines n ≤ i
  · refine .inr ⟨n, ?_, hstart, hend⟩
    by_contra hlength
    rw [pieceOf, List.getElem?_eq_none (Nat.le_of_not_lt hlength)] at hpiece
    exact hpiece rfl
  · have hne : textOfFirst lines n ≠ [] := by
      intro hnil
      rw [pieceStart_eq hpiece, hnil, separator] at hstart
      simp at hstart
    obtain ⟨m, hmn, hm, hbetween⟩ := exists_last_piece hne
    have hfollows : Follows lines m n := ⟨hmn, hm, hpiece, hbetween⟩
    have hlast : pieceEnd lines m = (textOfFirst lines n).length := by
      rw [hfollows.textOfFirst_eq, pieceEnd]
    refine .inl ⟨m, n, hfollows, ?_⟩
    rcases pieceStart_of_follows hfollows with ⟨-, heq⟩ | ⟨-, heq⟩
    · omega
    · constructor <;> omega

/-! ## Finding the characters of a piece again

The segment of a line starts where its piece does. No earlier segment starts behind it and the later
ones start behind the piece, so the search comes to that segment. -/

private theorem start_le_of_mem_segments_push {j : Joined}
    (hj : ∀ s ∈ j.segments, s.start ≤ j.text.length) (number : Int) (line : Text) :
    ∀ s ∈ (j.push number line).segments, s.start ≤ (j.push number line).text.length := by
  intro s hs
  have hgrow := (prefix_joinLine j.text line).length_le
  rw [text_push]
  by_cases hpiece : piece line = []
  · rw [push_of_nil hpiece] at hs
    exact (hj s hs).trans hgrow
  · rw [segments_push hpiece] at hs
    rcases List.mem_append.mp hs with hs | hs
    · exact (hj s hs).trans hgrow
    · rw [List.mem_singleton.mp hs, joinLine_of_ne_nil hpiece]
      simp

private theorem start_le_of_mem_segments (lines : List (Int × Text)) :
    ∀ s ∈ (ofLines lines).segments, s.start ≤ (ofLines lines).text.length := by
  induction lines using List.reverseRecOn with
  | nil => simp [ofLines, pushLines]
  | append_singleton lines line ih =>
    rw [ofLines, pushLines_append]
    exact start_le_of_mem_segments_push ih line.1 line.2

/-- Lines that are added later bring segments that start behind the text so far. -/
theorem exists_segments_pushLines (j : Joined) (lines : List (Int × Text)) :
    ∃ later, (j.pushLines lines).segments = j.segments ++ later ∧
      ∀ s ∈ later, j.text.length ≤ s.start := by
  induction lines generalizing j with
  | nil => exact ⟨[], by simp [pushLines], by simp⟩
  | cons line lines ih =>
    rw [pushLines, List.foldl_cons, ← pushLines]
    obtain ⟨later, hsegments, hlater⟩ := ih (j.push line.1 line.2)
    have hgrow := (prefix_joinLine j.text line.2).length_le
    rw [text_push] at hlater
    rw [hsegments]
    by_cases hpiece : piece line.2 = []
    · rw [push_of_nil hpiece]
      exact ⟨later, rfl, fun s hs ↦ hgrow.trans (hlater s hs)⟩
    · rw [segments_push hpiece, List.append_assoc]
      refine ⟨_, rfl, fun s hs ↦ ?_⟩
      rcases List.mem_cons.mp hs with rfl | hs
      · simp
      · exact hgrow.trans (hlater s hs)

/-- The segment of a line starts where its piece does, no earlier segment starts behind it, and the
later ones start behind the piece. -/
theorem exists_segments {line : Int × Text} (hline : lines[n]? = some line)
    (hpiece : pieceOf lines n ≠ []) :
    ∃ earlier later, (ofLines lines).segments =
        earlier ++ ⟨pieceStart lines n, line.1, indent line.2.withoutComment⟩ :: later ∧
      (∀ s ∈ earlier, s.start ≤ pieceStart lines n) ∧ ∀ s ∈ later, pieceEnd lines n ≤ s.start := by
  have hsplit : ofLines lines = (ofLines (lines.take (n + 1))).pushLines (lines.drop (n + 1)) := by
    rw [ofLines, ofLines, ← pushLines_append, List.take_append_drop]
  obtain ⟨later, hsegments, hlater⟩ :=
    exists_segments_pushLines (ofLines (lines.take (n + 1))) (lines.drop (n + 1))
  have hpiece' : piece line.2 ≠ [] := by rwa [pieceOf, hline] at hpiece
  have hstart : pieceStart lines n = ((ofLines (lines.take n)).text ++
      separator (ofLines (lines.take n)).text (piece line.2)).length := by
    rw [pieceStart_eq hpiece, pieceOf, hline]
    rfl
  rw [hsplit, hsegments, ofLines_take_succ hline, segments_push hpiece', List.append_assoc,
    ← hstart]
  refine ⟨_, later, rfl, fun s hs ↦ ?_, hlater⟩
  exact (start_le_of_mem_segments _ s hs).trans (le_pieceStart lines n)

/-- A character of a piece is found at the number of the line and as far behind the indentation as
it is behind the start of the piece. -/
theorem locate_of_isFrom {line : Int × Text} (hline : lines[n]? = some line)
    (hi : IsFrom lines n i) :
    (ofLines lines).locate i =
      .ok (line.1, (indent line.2.withoutComment + (i - pieceStart lines n) : Nat)) := by
  obtain ⟨earlier, later, hsegments, hearlier, hlater⟩ := exists_segments hline hi.pieceOf_ne_nil
  obtain ⟨hstart, hend⟩ := hi
  have hbefore : ∀ s ∈ earlier, decide ((s.start : Int) ≤ i) = true := by
    intro s hs
    have hle := hearlier s hs
    rw [decide_eq_true_eq]
    omega
  have hbehind : later.takeWhile (fun s ↦ decide ((s.start : Int) ≤ i)) = [] := by
    cases later with
    | nil => rfl
    | cons s later =>
      have hle := hlater s List.mem_cons_self
      rw [List.takeWhile_cons_of_neg]
      rw [decide_eq_true_eq]
      omega
  have hfound : ((ofLines lines).segments.takeWhile
      fun s ↦ decide ((s.start : Int) ≤ i)).getLast? =
        some ⟨pieceStart lines n, line.1, indent line.2.withoutComment⟩ := by
    rw [hsegments, List.takeWhile_append_of_pos hbefore, List.takeWhile_cons_of_pos, hbehind]
    · simp
    · rw [decide_eq_true_eq]
      exact Int.ofNat_le.mpr hstart
  have hcast : ((indent line.2.withoutComment : Int) + i - pieceStart lines n) =
      (indent line.2.withoutComment + (i - pieceStart lines n) : Nat) := by omega
  rw [locate, segmentOf?, hfound, Option.some_or]
  dsimp only
  rw [hcast]

private theorem getElem?_indent {s : Text} {k : Nat} (hk : k < (piece s).length) :
    s[indent s.withoutComment + k]? = (piece s)[k]? := by
  have hne : trim s.withoutComment ≠ [] := by
    intro hnil
    rw [piece, hnil] at hk
    exact absurd hk (Nat.not_lt_zero k)
  obtain ⟨b, e, hsaid, hindent, -⟩ := exists_eq_indent hne
  obtain ⟨w, hw⟩ := prefix_withoutComment s
  have hline : s = b ++ (piece s ++ (e ++ w)) := by
    rw [piece, ← List.append_assoc, ← List.append_assoc, ← hsaid, hw]
  rw [hindent, List.ext_getElem?_iff.mp hline, List.getElem?_append_right (Nat.le_add_right _ _),
    Nat.add_sub_cancel_left, List.getElem?_append_left hk]

/-- The piece of a line stands in the text from where it starts. -/
theorem getElem?_of_isFrom (h : IsFrom lines n i) :
    (ofLines lines).text[i]? = (pieceOf lines n)[i - pieceStart lines n]? := by
  obtain ⟨rest, hrest⟩ := prefix_text lines (n + 1)
  have hpiece := h.pieceOf_ne_nil
  have hlength := pieceStart_eq hpiece
  have hend := pieceEnd_eq lines n
  obtain ⟨hstart, hlt⟩ := h
  rw [← hrest, List.getElem?_append_left hlt, textOfFirst_succ_of_ne_nil hpiece,
    List.getElem?_append_right (by omega), hlength]

private theorem exists_locate (h : IsFrom lines n i) (hn : n < lines.length) :
    ∃ (column : Nat) (c : Char), (ofLines lines).locate i = .ok (lines[n].1, column) ∧
      lines[n].2[column]? = some c ∧ (ofLines lines).text[i]? = some c := by
  have hline := List.getElem?_eq_getElem hn
  have hpiece : pieceOf lines n = piece lines[n].2 := by rw [pieceOf, hline, Option.elim_some]
  have hlt : i - pieceStart lines n < (piece lines[n].2).length := by
    have hend := pieceEnd_eq lines n
    rw [hpiece] at hend
    obtain ⟨hstart, hi⟩ := h
    omega
  refine ⟨_, (piece lines[n].2)[i - pieceStart lines n], locate_of_isFrom hline h, ?_, ?_⟩
  · rw [getElem?_indent hlt, List.getElem?_eq_getElem hlt]
  · rw [getElem?_of_isFrom h, hpiece, List.getElem?_eq_getElem hlt]

/-! ## Places in order -/

theorem exists_isFrom (h : i < (ofLines lines).text.length) (hi : ¬IsSeparator lines i) :
    ∃ n < lines.length, IsFrom lines n i := by
  rcases exists_isFrom_or_isSeparator h with hseparator | hfrom
  · exact absurd hseparator hi
  · exact hfrom

/-- Where the numbers of the lines increase, a later character of a piece is found further on. -/
theorem exists_locate_lt (hnumbers : lines.Pairwise (·.1 < ·.1)) {m k : Nat}
    (hi : IsFrom lines m i) (hk : IsFrom lines n k) (hn : n < lines.length) (hik : i < k) :
    ∃ p q, (ofLines lines).locate i = .ok p ∧ (ofLines lines).locate k = .ok q ∧
      toLex p < toLex q := by
  have hmn := hi.le_of_lt hk hik
  have hm : m < lines.length := Nat.lt_of_le_of_lt hmn hn
  refine ⟨_, _, locate_of_isFrom (List.getElem?_eq_getElem hm) hi,
    locate_of_isFrom (List.getElem?_eq_getElem hn) hk, ?_⟩
  rw [Prod.Lex.toLex_lt_toLex]
  rcases Nat.lt_or_eq_of_le hmn with hlt | rfl
  · exact .inl (List.pairwise_iff_getElem.mp hnumbers m n hm hn hlt)
  · refine .inr ⟨rfl, ?_⟩
    have hstart := hi.1
    dsimp only
    omega

/-- The way back from a joined text to its lines is exact. Each character is a separator, a space
that no line adds as part of a piece, or it comes from a line, and then `locate` gives the number of
that line and a column in which the line has the character. If the numbers of the lines increase,
the places of the characters that are no separators increase too. Two pieces that follow each other
are separated exactly if the one does not end, and the other does not start, tightly. -/
theorem locate_ofLines (lines : List (Int × Text)) :
    (∀ i < (ofLines lines).text.length,
      (IsSeparator lines i ∧ (ofLines lines).text[i]? = some ' ' ∧ ∀ n, ¬IsFrom lines n i) ∨
        ∃ (n : Nat) (number : Int) (s : Text) (column : Nat) (c : Char),
          lines[n]? = some (number, s) ∧ IsFrom lines n i ∧
            (ofLines lines).locate i = .ok (number, column) ∧
            s[column]? = some c ∧ (ofLines lines).text[i]? = some c) ∧
    (lines.Pairwise (·.1 < ·.1) → ∀ i k, i < k → k < (ofLines lines).text.length →
      ¬IsSeparator lines i → ¬IsSeparator lines k →
        ∃ p q, (ofLines lines).locate i = .ok p ∧ (ofLines lines).locate k = .ok q ∧
          toLex p < toLex q) ∧
    ∀ m n, Follows lines m n →
      (IsSeparator lines (pieceEnd lines m) ↔
        (∀ c ∈ (pieceOf lines m).getLast?, c ∉ tightAfter) ∧
          ∀ c ∈ (pieceOf lines n).head?, c ∉ tightBefore) := by
  refine ⟨fun i hi ↦ ?_, fun hnumbers i k hik hk hi' hk' ↦ ?_, fun m n h ↦ ?_⟩
  · rcases exists_isFrom_or_isSeparator hi with hseparator | ⟨n, hn, hfrom⟩
    · exact .inl ⟨hseparator, hseparator.eq_space⟩
    · obtain ⟨column, c, hlocate, hs, htext⟩ := exists_locate hfrom hn
      exact .inr ⟨n, _, _, column, c, List.getElem?_eq_getElem hn, hfrom, hlocate, hs, htext⟩
  · obtain ⟨m, -, hm⟩ := exists_isFrom (Nat.lt_trans hik hk) hi'
    obtain ⟨n, hn, hn'⟩ := exists_isFrom hk hk'
    exact exists_locate_lt hnumbers hm hn' hn hik
  · rw [isSeparator_iff h, IsTight]
    push Not
    rfl

/-- A head in four lines, one of them a comment, with a tight break and one that is not. -/
def brokenHead : List (Int × Text) :=
  [(3, "  public F(int a, // first".toList), (4, "// second".toList), (6, "\tstring b)".toList),
    (7, "  where T".toList)]

theorem locate_ofLines_brokenHead :
    (ofLines brokenHead).text = "public F(int a,string b) where T".toList ∧
    brokenHead.Pairwise (·.1 < ·.1) ∧
    (∃ p q, (ofLines brokenHead).locate 14 = .ok p ∧ (ofLines brokenHead).locate 15 = .ok q ∧
      toLex p < toLex q ∧ q = (6, 1)) ∧
    Follows brokenHead 2 3 ∧ IsSeparator brokenHead 24 := by
  have htext : (ofLines brokenHead).text = "public F(int a,string b) where T".toList := by decide
  have hnumbers : brokenHead.Pairwise (·.1 < ·.1) := by decide
  have hvisible : ∀ i, (ofLines brokenHead).text[i]? ≠ some ' ' → ¬IsSeparator brokenHead i :=
    fun i hi h ↦ hi h.eq_space.1
  have hfollows : Follows brokenHead 2 3 := ⟨by decide, by decide, by decide, fun l _ _ ↦ by omega⟩
  obtain ⟨-, hplaces, hseparated⟩ := locate_ofLines brokenHead
  obtain ⟨p, q, hp, hq, hlt⟩ := hplaces hnumbers 14 15 (by decide) (by rw [htext]; decide)
    (hvisible 14 (by rw [htext]; decide)) (hvisible 15 (by rw [htext]; decide))
  have hfound : (ofLines brokenHead).locate 15 = .ok (6, 1) := by decide
  have hlast : (pieceOf brokenHead 2).getLast? = some ')' := by decide
  have hhead : (pieceOf brokenHead 3).head? = some 'w' := by decide
  have hseparator : IsSeparator brokenHead 24 := by
    refine (hseparated 2 3 hfollows).mpr ?_
    rw [hlast, hhead]
    simp [tightAfter, tightBefore]
  exact ⟨htext, hnumbers, ⟨p, q, hp, hq, hlt, Except.ok.inj (hq.symm.trans hfound)⟩, hfollows,
    hseparator⟩

end Joined

end CSharpOutline
