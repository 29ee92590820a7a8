import CSharpOutline.Member.Scan
import CSharpOutline.Proofs.Code.Inert
import CSharpOutline.Proofs.Code.Stopping

/-!
# Where a body ends

A body is followed from its opener line by line. How far it reaches depends only on what stands
ahead: the lines from the opener on, the first of them cut there (`Opener.bodyEnd?`). If the end is
found, then the lines after it do not matter (`bodyEnd?_take_append`); if it is not, then the body
reaches to the last line of the document (`lastLine_natCast`).

Lines that say nothing, because they are blank or hold a comment only, are passed over
(`Balance.stopLine?_aside`).
-/

namespace CSharpOutline

open Text

namespace Balance

variable {stop : Balance → Char → Bool}

theorem passes?_append (b : Balance) (s t : Text) :
    b.passes? stop (s ++ t) = (b.passes? stop s).bind (passes? stop · t) := by
  induction s generalizing b with
  | nil => rfl
  | cons c s ih =>
    rw [List.cons_append, passes?, passes?]
    split
    · rfl
    · exact ih _

theorem passes?_eq_some {b b' : Balance} {t : Text} (h : b.passes? stop t = some b') :
    b' = b.run t := by
  induction t generalizing b with
  | nil => exact (Option.some.inj h).symm
  | cons c t ih =>
    rw [passes?] at h
    split at h
    · simp at h
    · exact ih h

private theorem stopLine?_lt {b : Balance} {lines : List Text} {k : Nat}
    (h : b.stopLine? stop lines = some k) : k < lines.length := by
  induction lines generalizing b k with
  | nil => simp [stopLine?] at h
  | cons line lines ih =>
    rw [stopLine?] at h
    split at h
    · rw [← Option.some.inj h]
      simp
    · obtain ⟨m, hm, rfl⟩ := Option.map_eq_some_iff.mp h
      have hlt := ih hm
      rw [List.length_cons]
      omega

/-- Reading stops before the lines that follow. -/
theorem stopLine?_take_append {b : Balance} {lines : List Text} {k : Nat}
    (h : b.stopLine? stop lines = some k) (more : List Text) :
    b.stopLine? stop (lines.take (k + 1) ++ more) = some k := by
  induction lines generalizing b k with
  | nil => simp [stopLine?] at h
  | cons line lines ih =>
    rw [stopLine?] at h
    rw [List.take_succ_cons, List.cons_append, stopLine?]
    split at h
    · exact h
    · obtain ⟨m, hm, rfl⟩ := Option.map_eq_some_iff.mp h
      rw [ih hm, Option.map_some]

/-! ## Blanks and comments

A line that says nothing is passed over: blanks change no depth, and a comment goes on to the end of
the line, where the line break ends it. -/

/-- A search that stops neither at characters outside the code nor at those that are no bracket and
no semicolon, as long as the depths are those of `b`. -/
def Quiet (stop : Balance → Char → Bool) (b : Balance) : Prop :=
  ∀ (b' : Balance) (c : Char), b'.depths = b.depths →
    b'.isCode c = false ∨ (isUncounted c = true ∧ c ≠ ';') → stop b' c = false

theorem quiet_endsStatement (b : Balance) : Quiet endsStatement b := by
  rintro b' c - (hcode | ⟨-, hc⟩)
  · simp [endsStatement, isOutermost, hcode]
  · simp [endsStatement, hc]

theorem quiet_closed {k : Bracket} {b : Balance} (h : b.depths.of k ≠ 0) : Quiet (closed k) b := by
  intro b' c hdepths hc
  have hstep : (b'.step c).depths = b.depths := by
    rcases hc with hcode | ⟨hc, -⟩
    · rw [depths_step_of_isCode hcode, hdepths]
    · rw [depths_step_of_isUncounted hc, hdepths]
  rw [closed, hstep]
  simpa using h

private theorem passes?_inLineComment {b : Balance} (hb : b.lexer.mode = .lineComment) {r : Text}
    (hr : '\n' ∉ r) (hquiet : Quiet stop b) : b.passes? stop r = some b := by
  induction r with
  | nil => rfl
  | cons c r ih =>
    have hc : c ≠ '\n' := fun h ↦ hr (by rw [h]; exact List.mem_cons_self)
    have hcode : b.isCode c = false := by simp [isCode, Lexer.isCode, hb, Mode.trail?]
    have hstep : b.step c = b := by
      refine ext_of ?_ (depths_step_of_isCode hcode) rfl
      rw [step_lexer, Lexer.step, hb]
      simp only [if_neg hc]
      rw [← hb]
    rw [passes?, hquiet b c rfl (.inl hcode), hstep]
    exact ih fun h ↦ hr (List.mem_cons_of_mem _ h)

def plain (b : Balance) : Balance := { b with lexer := ⟨.code .plain, b.lexer.escaping⟩ }

/-- A line comment is passed over, and the line break after it ends it. -/
theorem passes?_comment {b : Balance} {t : Trail} (hb : b.lexer.mode = .code t) (ht : t ≠ .slash)
    {r : Text} (hr : '\n' ∉ r) (hquiet : Quiet stop b) :
    ∃ b', b.passes? stop ('/' :: '/' :: r) = some b' ∧ b'.step '\n' = b.plain := by
  have hslash : (b.step '/').lexer.mode = .code .slash := by
    rw [step_lexer, Lexer.mode_step_slash hb, if_neg ht]
  have hcomment : ((b.step '/').step '/').lexer.mode = .lineComment := by
    rw [step_lexer, Lexer.mode_step_slash hslash, if_pos rfl]
  have hdepths : ((b.step '/').step '/').depths = b.depths := by
    rw [depths_step_of_isUncounted (by decide), depths_step_of_isUncounted (by decide)]
  have hescaping : ((b.step '/').step '/').lexer.escaping = b.lexer.escaping := by
    rw [step_lexer, Lexer.escaping_step_of_ne_literal fun q ↦ by rw [hslash]; simp, step_lexer,
      Lexer.escaping_step_of_ne_literal fun q ↦ by rw [hb]; simp]
  refine ⟨(b.step '/').step '/', ?_, ?_⟩
  · rw [passes?, hquiet b '/' rfl (.inr (by decide)), if_neg (by decide), passes?,
      hquiet _ '/' (depths_step_of_isUncounted (by decide) b) (.inr (by decide)),
      if_neg (by decide)]
    exact passes?_inLineComment hcomment hr fun b' c hb' ↦ hquiet b' c (hb'.trans hdepths)
  · refine ext_of ?_ ?_ rfl
    · rw [step_lexer, Lexer.step, hcomment]
      simp only [if_pos, hescaping]
      rfl
    · rw [depths_step_of_isUncounted (by decide), hdepths]
      rfl

/-- What says nothing: blanks, and after them nothing or a comment. -/
def IsAside (t : Text) : Prop :=
  ∃ e w : Text, t = e ++ w ∧ e.allBlank = true ∧ (w = [] ∨ ∃ r, w = '/' :: '/' :: r)

theorem passes?_aside {b : Balance} {t : Trail} (hb : b.lexer.mode = .code t) (ht : t ≠ .slash)
    {s : Text} (hs : IsAside s) (hn : '\n' ∉ s) (hquiet : Quiet stop b) :
    ∃ b', b.passes? stop s = some b' ∧ b'.step '\n' = b.plain := by
  obtain ⟨e, w, rfl, he, hw⟩ := hs
  -- a blank leaves nothing to remember, so the trail is as good as plain from then on
  induction e generalizing b t with
  | nil =>
    rcases hw with rfl | ⟨r, rfl⟩
    · refine ⟨b, rfl, ext_of ?_ (depths_step_of_isUncounted (by decide) b) rfl⟩
      rw [step_lexer, Lexer.step, hb]
      rfl
    · refine passes?_comment hb ht (fun h ↦ hn ?_) hquiet
      exact List.mem_cons_of_mem _ (List.mem_cons_of_mem _ h)
  | cons c e ih =>
    rw [Text.allBlank_cons, Bool.and_eq_true] at he
    have hc : c ≠ '\n' := fun h ↦ hn (by rw [h]; exact List.mem_cons_self)
    have hcount := isUncounted_of_isBlank he.1
    have hstep : b.step c = b.plain := by
      refine ext_of ?_ (depths_step_of_isUncounted hcount b) rfl
      rw [step_lexer, Lexer.step, hb]
      dsimp only
      rw [Lexer.codeStep_of_isInert (Lexer.isInert_of_isBlank he.1 hc)]
      rfl
    rw [List.cons_append, passes?,
      hquiet b c rfl (.inr ⟨hcount, ne_of_isBlank he.1 (by decide)⟩), if_neg (by decide), hstep]
    exact ih (b := b.plain) rfl (by decide) (fun b' c hb' ↦ hquiet b' c hb')
      (fun h ↦ hn (List.mem_cons_of_mem _ h)) he.2

/-- Lines that say nothing are passed over. -/
theorem stopLine?_aside {b : Balance} (hb : b.lexer.mode = .code .plain) {asides : List Text}
    (h : ∀ s ∈ asides, IsAside s ∧ '\n' ∉ s) (hquiet : Quiet stop b) (lines : List Text) :
    b.stopLine? stop (asides ++ lines) = (b.stopLine? stop lines).map (· + asides.length) := by
  induction asides with
  | nil => simp
  | cons s asides ih =>
    obtain ⟨hs, hn⟩ := h s List.mem_cons_self
    obtain ⟨b', hpass, hbreak⟩ := passes?_aside hb (by decide) hs hn hquiet
    have hplain : b.plain = b := by
      refine ext_of ?_ rfl rfl
      rw [plain, ← hb]
    rw [List.cons_append, stopLine?, hpass]
    dsimp only
    rw [hbreak, hplain, ih fun s hs ↦ h s (List.mem_cons_of_mem _ hs), Option.map_map]
    congr 1

end Balance

/-! ## The lines ahead -/

namespace Snapshot

/-- No line holds a line break. This is so for every snapshot of a text (`isCut_ofText`). -/
def IsCut (s : Snapshot) : Prop := ∀ line ∈ s.lines, '\n' ∉ line

theorem isCut_ofText (t : Text) : (ofText t).IsCut := by
  have hlines : ∀ line ∈ t.lines, '\n' ∉ line := by
    induction t with
    | nil => simp [Text.lines]
    | cons c t ih =>
      obtain ⟨first, rest, hfirst⟩ := List.exists_cons_of_ne_nil (lines_ne_nil t)
      rw [Text.lines, hfirst]
      rw [hfirst, List.forall_mem_cons] at ih
      split
      · rw [List.forall_mem_cons, List.forall_mem_cons]
        exact ⟨List.not_mem_nil, ih⟩
      · next hc =>
        rw [List.modifyHead_cons, List.forall_mem_cons, List.mem_cons, not_or]
        exact ⟨⟨Ne.symm hc, ih.1⟩, ih.2⟩
  intro line hline
  obtain ⟨whole, hwhole, rfl⟩ := List.mem_map.mp hline
  rw [dropReturn]
  split
  · exact fun h ↦ hlines whole hwhole (List.dropLast_subset whole h)
  · exact hlines whole hwhole

end Snapshot

/-- The lines from a place on, the first of them cut there. -/
def linesAhead (lines : List Text) (line column : Nat) : List Text :=
  (lines.drop line).modifyHead (·.drop column)

theorem linesAhead_of_getElem? {lines : List Text} {i : Nat} {line : Text}
    (h : lines[i]? = some line) (column : Nat) :
    linesAhead lines i column = line.drop column :: lines.drop (i + 1) := by
  obtain ⟨hi, rfl⟩ := List.getElem?_eq_some_iff.mp h
  rw [linesAhead, List.drop_eq_getElem_cons hi]
  rfl

theorem linesAhead_drop (lines : List Text) (i j column : Nat) :
    linesAhead (lines.drop i) j column = linesAhead lines (i + j) column := by
  rw [linesAhead, List.drop_drop, linesAhead]

theorem linesAhead_length_append (pre lines : List Text) (i column : Nat) :
    linesAhead (pre ++ lines) (pre.length + i) column = linesAhead lines i column := by
  rw [← linesAhead_drop, List.drop_left]

theorem linesAhead_take_append {lines : List Text} {i k : Nat} (h : i + k < lines.length)
    (column : Nat) (post : List Text) :
    linesAhead (lines.take (i + k + 1) ++ post) i column =
      (linesAhead lines i column).take (k + 1) ++ post := by
  have hi : i < lines.length := by omega
  have hlength : (lines.take (i + k + 1)).length = i + k + 1 := by
    rw [List.length_take, Nat.min_eq_left h]
  rw [linesAhead, linesAhead, List.drop_append_of_le_length (by omega), List.drop_take,
    show i + k + 1 - i = k + 1 by omega, List.drop_eq_getElem_cons hi]
  rfl

theorem exists_suffix_of_mem_linesAhead {lines : List Text} {i column : Nat} {t : Text}
    (h : t ∈ linesAhead lines i column) : ∃ line ∈ lines, t <:+ line := by
  rw [linesAhead] at h
  cases hdrop : lines.drop i with
  | nil => simp [hdrop] at h
  | cons line rest =>
    have hmem : ∀ s ∈ line :: rest, s ∈ lines := by
      intro s hs
      rw [← hdrop] at hs
      exact List.mem_of_mem_drop hs
    rw [hdrop, List.modifyHead_cons] at h
    rcases List.mem_cons.mp h with rfl | h
    · exact ⟨line, hmem line List.mem_cons_self, List.drop_suffix _ _⟩
    · exact ⟨t, hmem t (List.mem_cons_of_mem _ h), List.suffix_refl t⟩

/-! ## The end of a body -/

namespace Opener

/-- How many lines a body reaches ahead, by the lines from its opener on. -/
def bodyEnd? (opener : Opener) (ahead : List Text) : Option Nat :=
  match opener with
  | .brace => Balance.withoutAngles.stopLine? (Balance.closed .brace) ahead
  | .arrow => Balance.withoutAngles.stopLine? Balance.endsStatement ahead
  | .semicolon => some 0

theorem stopLineFrom_natCast (stop : Balance → Char → Bool) {lines : List Text} {line : Nat}
    (h : line < lines.length) (column : Nat) :
    stopLineFrom stop lines line column =
      .ok ((Balance.withoutAngles.stopLine? stop (linesAhead lines line column)).elim
        (lines.length - 1 : Int) (line + ·)) := by
  have hitem : item? lines (line : Int) = some lines[line] := by
    rw [item?, position?_natCast h, Option.bind_some, List.getElem?_eq_getElem h]
  rw [stopLineFrom, linesFrom, hitem, readFrom?_natCast]
  simp only [itemsFrom_natCast]
  rfl

/-- A body ends where its end is found ahead, or else with the last line. -/
theorem lastLine_natCast (opener : Opener) {lines : List Text} {line : Nat}
    (h : line < lines.length) (column : Nat) :
    opener.lastLine lines (line, column) =
      .ok ((opener.bodyEnd? (linesAhead lines line column)).elim
        (lines.length - 1 : Int) (line + ·)) := by
  cases opener with
  | brace => exact stopLineFrom_natCast _ h column
  | arrow => exact stopLineFrom_natCast _ h column
  | semicolon => simp [lastLine, bodyEnd?]

theorem bodyEnd?_lt {opener : Opener} {ahead : List Text} (hne : ahead ≠ []) {k : Nat}
    (h : opener.bodyEnd? ahead = some k) : k < ahead.length := by
  cases opener with
  | brace => exact Balance.stopLine?_lt h
  | arrow => exact Balance.stopLine?_lt h
  | semicolon =>
    rw [← Option.some.inj h]
    exact List.length_pos_of_ne_nil hne

theorem bodyEnd?_take_append {opener : Opener} {ahead : List Text} {k : Nat}
    (h : opener.bodyEnd? ahead = some k) (more : List Text) :
    opener.bodyEnd? (ahead.take (k + 1) ++ more) = some k := by
  cases opener with
  | brace => exact Balance.stopLine?_take_append h more
  | arrow => exact Balance.stopLine?_take_append h more
  | semicolon => exact h

end Opener

end CSharpOutline
