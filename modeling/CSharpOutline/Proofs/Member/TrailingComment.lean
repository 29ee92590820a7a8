import CSharpOutline.Proofs.Member.Opening

/-!
# Comments behind a declaration

A comment at the end of a line of a declaration changes nothing that the scan looks at: what the
line says, the modifier it carries, whether it ends a member, and where the body ends. The scan of a
document with such a comment added gives the same block (`Document.member?_commented`).

Two things have to be kept out. The line is searched for words as it stands, so a comment behind a
later line of the declaration must not hold the modifier of a member that is not public. And the
body is followed from its opener, not from the start of the line: if the opener stands in the
middle of what the line on its own would take for a literal, then the end of the line may lie in a
literal of the body, where no comment starts (`Document.member?_commented_ne`).
-/

namespace CSharpOutline

open Text CSharpOutline.Joined Scan

namespace Text

/-- A line with a comment behind it. -/
def commented (line comment : Text) : Text := line ++ ' ' :: '/' :: '/' :: comment

/-! ## What the line says -/

theorem withoutComment_commented {line : Text} (hline : line.withoutComment = line)
    (hcode : line.endsInCode = true) (comment : Text) :
    (commented line comment).withoutComment = line ++ [' '] := by
  have happend := Lexer.beforeComment_append (t := ' ' :: '/' :: '/' :: comment) hline (by simp)
  rw [Lexer.beforeComment_comment hcode] at happend
  exact happend

private theorem piece_commented {line : Text} (hline : line.withoutComment = line)
    (hcode : line.endsInCode = true) (comment : Text) :
    piece (commented line comment) = piece line := by
  rw [piece, piece, withoutComment_commented hline hcode, hline]
  obtain ⟨b, e, hb, he, htrimmed, ht⟩ := exists_eq_append_trim line
  have hspace : allBlank (e ++ [' ']) = true := by
    rw [allBlank_append, he]
    decide
  conv => lhs; rw [ht, List.append_assoc, trim_append hb htrimmed hspace]

/-! ## The words of the line

A comment adds words behind those of the line and takes none away. So a line carries what it
carried, and does not end a member unless a word of the comment does. -/

private theorem hasWord_commented (line comment word : Text) :
    hasWord (commented line comment) word = (hasWord line word || hasWord comment word) := by
  have hwords : words (commented line comment) = words line ++ words comment := by
    rw [words, commented, runs_append_cons line (by decide), runs_cons_of_neg (by decide),
      runs_cons_of_neg (by decide)]
    rfl
  rw [hasWord, hwords, List.contains_append, hasWord, hasWord]

private theorem endsMember_commented {line comment : Text} (hline : line.endsMember = false)
    (hcomment : ∀ word ∈ restrictedAccess, hasWord comment word = false) :
    (commented line comment).endsMember = false := by
  rw [endsMember, Bool.or_eq_false_iff] at hline ⊢
  constructor
  · rw [commented, allBlank_append, hline.1, Bool.false_and]
  · rw [List.any_eq_false] at hline ⊢
    intro word hword
    rw [hasWord_commented, hcomment word hword, Bool.or_false]
    exact hline.2 word hword

private theorem expect?_append {word t rest : Text} (h : expect? word t = some rest) (v : Text) :
    expect? word (t ++ v) = some (rest ++ v) := by
  rw [expect?_eq_some_iff] at h ⊢
  rw [h, List.append_assoc]

private theorem afterPhrase?_cons_nil {word : Text} (hword : word ≠ []) (phrase : List Text) :
    afterPhrase? (word :: phrase) [] = none := by
  obtain ⟨c, word, rfl⟩ := List.exists_cons_of_ne_nil hword
  cases phrase with
  | nil => rfl
  | cons next phrase => rfl

private theorem skipBlanks?_append {t r : Text} (h : skipBlanks? t = some r) (hr : r ≠ [])
    (v : Text) : skipBlanks? (t ++ v) = some (r ++ v) := by
  cases t with
  | nil => simp [skipBlanks?] at h
  | cons c t =>
    rw [skipBlanks?] at h
    rw [List.cons_append, skipBlanks?]
    split at h
    · next hc =>
      obtain rfl := Option.some.inj h
      rw [if_pos hc, trimStart_append_of_ne_nil hr]
    · simp at h

private theorem afterPhrase?_append {phrase : List Text} (hphrase : ∀ word ∈ phrase, word ≠ [])
    {t rest : Text} (h : afterPhrase? phrase t = some rest) (v : Text) :
    afterPhrase? phrase (t ++ v) = some (rest ++ v) := by
  induction phrase generalizing t with
  | nil =>
    rw [afterPhrase?] at h ⊢
    rw [Option.some.inj h]
  | cons word phrase ih =>
    cases phrase with
    | nil =>
      rw [afterPhrase?] at h ⊢
      exact expect?_append h v
    | cons next phrase =>
      have hunfold : ∀ t, afterPhrase? (word :: next :: phrase) t =
          ((expect? word t).bind skipBlanks?).bind (afterPhrase? (next :: phrase)) := by
        intro t
        rw [afterPhrase?]
        · cases (expect? word t).bind skipBlanks? <;> rfl
        · simp
      rw [hunfold] at h ⊢
      obtain ⟨r, hr, h⟩ := Option.bind_eq_some_iff.mp h
      obtain ⟨s, hs, hr⟩ := Option.bind_eq_some_iff.mp hr
      have hne : r ≠ [] := by
        rintro rfl
        rw [afterPhrase?_cons_nil (hphrase next (by simp))] at h
        exact absurd h (by simp)
      rw [expect?_append hs, Option.bind_some, skipBlanks?_append hr hne, Option.bind_some]
      exact ih (fun w hw ↦ hphrase w (List.mem_cons_of_mem _ hw)) h

private theorem phraseHere_append {phrase : List Text} (hphrase : ∀ word ∈ phrase, word ≠ [])
    {before : Option Char} {c : Char} {t : Text} (h : phraseHere phrase before (c :: t) = true)
    {v : Text} (hv : v.head?.any isWord = false) :
    phraseHere phrase before (c :: t ++ v) = true := by
  rw [phraseHere] at h
  cases hrest : afterPhrase? phrase (c :: t) with
  | none => simp [hrest] at h
  | some rest =>
    rw [hrest] at h
    dsimp only at h
    rw [phraseHere, afterPhrase?_append hphrase hrest]
    dsimp only
    rw [Bool.and_eq_true] at h ⊢
    refine ⟨h.1, ?_⟩
    cases rest with
    | nil =>
      rw [List.nil_append, atBoundary, hv]
      exact h.2
    | cons d rest => exact h.2

private theorem hasPhraseAfter_append {phrase : List Text} (hphrase : ∀ word ∈ phrase, word ≠ [])
    {before : Option Char} {t v : Text} (h : hasPhraseAfter phrase before t = true)
    (hv : v.head?.any isWord = false) : hasPhraseAfter phrase before (t ++ v) = true := by
  induction t generalizing before with
  | nil => simp [hasPhraseAfter] at h
  | cons c t ih =>
    rw [hasPhraseAfter, Bool.or_eq_true] at h
    rw [List.cons_append, hasPhraseAfter, Bool.or_eq_true]
    rcases h with h | h
    · exact .inl (phraseHere_append hphrase h hv)
    · exact .inr (ih h)

private theorem carries_commented {line modifier : Text} (h : line.carries modifier = true)
    (comment : Text) : (commented line comment).carries modifier = true := by
  rw [carries, hasPhrase, Bool.and_eq_true] at h ⊢
  refine ⟨h.1, hasPhraseAfter_append (fun word hword ↦ (mem_fields hword).1) h.2 ?_⟩
  rw [List.head?_cons]
  decide

end Text

/-! ## The declaration -/

namespace Joined

private theorem join_eq_of_map_piece {lines lines' : List Text}
    (h : lines.map piece = lines'.map piece) (text : Text) :
    join text lines = join text lines' := by
  have hfold : ∀ lines : List Text, join text lines =
      (lines.map piece).foldl
        (fun t p ↦ if p.isEmpty then t else t ++ separator t p ++ p) text := by
    intro lines
    rw [List.foldl_map]
    rfl
  rw [hfold, hfold, h]

end Joined

section

variable {read unread : List Text} {line comment : Text} (hline : line.withoutComment = line)
  (hcode : line.endsInCode = true)

include hline hcode

/-- A comment behind a line leaves the places on it and on later lines where they are. -/
theorem StandsAt.commented {shown : Text} {d : Char} {k column : Nat}
    (h : StandsAt (read ++ line :: unread) shown d k column) (hle : read.length ≤ k) :
    StandsAt (read ++ commented line comment :: unread) shown d k column := by
  obtain ⟨before, u, v, w, after, hlines, hsaid, hd, rfl, rfl, hshown⟩ := h
  have hsays : (Text.commented line comment).withoutComment = line ++ [' '] :=
    withoutComment_commented hline hcode comment
  obtain ⟨m, rfl, hm⟩ : ∃ m, before = read ++ m ∧
      line :: unread = m ++ (u ++ d :: v ++ w) :: after := by
    rcases List.append_eq_append_iff.mp hlines with ⟨m, hm, hrest⟩ | ⟨m, hm, hrest⟩
    · exact ⟨m, hm, hrest⟩
    · obtain rfl : m = [] := by
        rw [hm, List.length_append] at hle
        exact List.length_eq_zero_iff.mp (by omega)
      exact ⟨[], by simpa using hm.symm, by simpa using hrest.symm⟩
  cases m with
  | nil =>
    obtain ⟨rfl, rfl⟩ := List.cons.inj hm
    obtain rfl : w = [] := by
      rw [hsaid] at hline
      simpa using hline
    refine ⟨read, u, v ++ [' '], '/' :: '/' :: comment, unread, ?_, ?_, hd, by simp, rfl, ?_⟩
    · simp [Text.commented]
    · rw [show u ++ d :: (v ++ [' ']) ++ '/' :: '/' :: comment =
        Text.commented (u ++ d :: v ++ []) comment by simp [Text.commented], hsays]
      simp
    · simpa using hshown
  | cons first m =>
    obtain ⟨rfl, rfl⟩ := List.cons.inj hm
    refine ⟨read ++ Text.commented line comment :: m, u, v, w, after, by simp, hsaid, hd, by simp,
      rfl, ?_⟩
    rw [hshown]
    simp only [List.flatMap_append, List.flatMap_cons, visible_append, hsays, hline]
    simp [visible, show isBlank ' ' = true by decide]

private theorem map_piece_commented :
    (read ++ commented line comment :: unread).map piece = (read ++ line :: unread).map piece := by
  rw [List.map_append, List.map_append, List.map_cons, List.map_cons,
    piece_commented hline hcode]

private theorem join_take_commented (k : Nat) :
    join [] ((read ++ commented line comment :: unread).take k) =
      join [] ((read ++ line :: unread).take k) := by
  refine join_eq_of_map_piece ?_ []
  rw [List.map_take, List.map_take, map_piece_commented hline hcode]

private theorem Scan.Opens.commented {start : Nat} {o : Opening} {n : Nat} {rest : Text}
    (h : Opens start (read ++ line :: unread) o n rest)
    (hword : read = [] ∨ ∀ word ∈ restrictedAccess, hasWord comment word = false)
    (hposition : ((start + read.length : Nat) : Int) ≤ o.position.1) :
    Opens start (read ++ commented line comment :: unread) o n rest := by
  obtain ⟨d, k, column, hhead, hplace, hstands⟩ := h.place
  have hle : read.length ≤ k := by
    rw [hplace] at hposition
    dsimp only at hposition
    omega
  have hk : k ≤ n := by
    obtain ⟨before, u, v, w, after, hlines, -, -, rfl, -⟩ := hstands
    have hlength := congrArg List.length hlines
    simp only [List.length_take, List.length_append, List.length_cons] at hlength
    omega
  have htake : ∀ x : Text, (read ++ x :: unread).take (n + 1) =
      read ++ x :: unread.take (n - read.length) := by
    intro x
    rw [List.take_append, List.take_of_length_le (by omega),
      show n + 1 - read.length = (n - read.length) + 1 by omega, List.take_succ_cons]
  have hgoesOn : ∀ i ≤ n, 0 < i →
      ((read ++ Text.commented line comment :: unread).getD i []).endsMember = false := by
    intro i hi hpos
    have hold := h.decides.goesOn i hi hpos
    rcases Nat.lt_trichotomy i read.length with hlt | rfl | hgt
    · rw [List.getD_append _ _ _ _ hlt] at hold ⊢
      exact hold
    · rw [getD_append_cons] at hold ⊢
      refine endsMember_commented hold (hword.resolve_left ?_)
      rintro rfl
      exact absurd hpos (by simp)
    · obtain ⟨j, hj⟩ : ∃ j, i - read.length = j + 1 := ⟨i - read.length - 1, by omega⟩
      rw [List.getD_append_right _ _ _ _ (by omega), hj, List.getD_cons_succ] at hold ⊢
      exact hold
  refine ⟨⟨by simpa using h.decides.lt, hgoesOn, fun i hi ↦ ?_, ?_⟩, ?_, d, k, column, hhead,
    hplace, ?_⟩
  · rw [join_take_commented hline hcode]
    exact h.decides.undecided i hi
  · rw [join_take_commented hline hcode]
    exact h.decides.member
  · rw [join_take_commented hline hcode]
    exact h.text
  · rw [htake] at hstands ⊢
    exact hstands.commented hline hcode hle

end

/-! ## The body

A line that ends in code is read on from there as a line without the comment would be, because in
code a line break is read like a space. A body that ends on the line of its opener ends there
whatever follows. -/

namespace Balance

private theorem depth_ne_zero_of_passes? {k : Bracket} {b b' : Balance} {t : Text} (hne : t ≠ [])
    (h : b.passes? (closed k) t = some b') : b'.depths.of k ≠ 0 := by
  obtain ⟨c, s, rfl⟩ := List.exists_cons_of_ne_nil hne
  induction s generalizing b c with
  | nil =>
    rw [passes?] at h
    split at h
    · simp at h
    · next hc =>
      rw [← Option.some.inj h]
      simpa [closed] using hc
  | cons d s ih =>
    rw [passes?] at h
    split at h
    · simp at h
    · exact ih d (by simp) h

private theorem step_newline_of_isCode {b : Balance} (h : b.lexer.isCode ' ' = true) :
    b.step '\n' = (b.step ' ').plain := by
  refine ext_of ?_ ?_ rfl
  · obtain ⟨⟨mode, escaping⟩, depths, counts⟩ := b
    cases mode with
    | code t => rfl
    | verbatimQuote => rfl
    | lineComment => simp [Lexer.isCode, Mode.trail?] at h
    | blockComment star => simp [Lexer.isCode, Mode.trail?] at h
    | literal quote => simp [Lexer.isCode, Mode.trail?] at h
    | verbatim => simp [Lexer.isCode, Mode.trail?] at h
  · rw [depths_step_of_isUncounted (by decide), plain, depths_step_of_isUncounted (by decide)]

private theorem stopLine?_commented {stop : Balance → Char → Bool} {b : Balance}
    {line comment : Text} (hquiet : ∀ b', b.passes? stop line = some b' → Quiet stop b')
    (hcode : (b.run line).lexer.isCode ' ' = true) (hcomment : '\n' ∉ comment)
    (rest : List Text) :
    b.stopLine? stop (commented line comment :: rest) = b.stopLine? stop (line :: rest) := by
  rw [stopLine?, stopLine?, commented, passes?_append]
  cases hpass : b.passes? stop line with
  | none => rfl
  | some b' =>
    obtain rfl := passes?_eq_some hpass
    have hq := hquiet _ hpass
    obtain ⟨hmode, -⟩ := Lexer.mode_step_space hcode
    have hdepths := depths_step_of_isUncounted (c := ' ') (by decide) (b.run line)
    obtain ⟨b'', hpass', hbreak⟩ := passes?_comment (b := (b.run line).step ' ') hmode (by decide)
      hcomment fun b' c hb' ↦ hq b' c (hb'.trans hdepths)
    rw [Option.bind_some, passes?, hq _ ' ' rfl (.inr (by decide)), if_neg (by decide), hpass']
    dsimp only
    rw [hbreak, step_newline_of_isCode hcode]

end Balance

namespace Opener

private theorem bodyEnd?_commented (opener : Opener) {line comment : Text} (hne : line ≠ [])
    (hcode : line.endsInCode = true) (hcomment : '\n' ∉ comment) (rest : List Text) :
    opener.bodyEnd? (commented line comment :: rest) = opener.bodyEnd? (line :: rest) := by
  have hrun : (Balance.withoutAngles.run line).lexer.isCode ' ' = true := by
    rw [Balance.run_lexer]
    exact hcode
  cases opener with
  | brace =>
    exact Balance.stopLine?_commented
      (fun _ h ↦ Balance.quiet_closed (Balance.depth_ne_zero_of_passes? hne h)) hrun hcomment rest
  | arrow =>
    exact Balance.stopLine?_commented (fun _ _ ↦ Balance.quiet_endsStatement _) hrun hcomment rest
  | semicolon => rfl

/-- A body that ends on the line of its opener ends there whatever follows on the line. -/
theorem bodyEnd?_append_of_zero {opener : Opener} {line : Text} {rest : List Text}
    (h : opener.bodyEnd? (line :: rest) = some 0) (more : Text) :
    opener.bodyEnd? ((line ++ more) :: rest) = some 0 := by
  have hstop : ∀ stop : Balance → Char → Bool,
      Balance.withoutAngles.stopLine? stop (line :: rest) = some 0 →
      Balance.withoutAngles.stopLine? stop ((line ++ more) :: rest) = some 0 := by
    intro stop h
    rw [Balance.stopLine?] at h
    rw [Balance.stopLine?, Balance.passes?_append]
    split at h
    · next hnone => rw [hnone]; rfl
    · obtain ⟨m, -, hm⟩ := Option.map_eq_some_iff.mp h
      exact absurd hm (by simp)
  cases opener with
  | brace => exact hstop _ h
  | arrow => exact hstop _ h
  | semicolon => rfl

/-- A comment behind the line of the opener does not change where the body ends, if the body ends on
that line or the line ends in code. -/
theorem lastLine_commented (opener : Opener) {lines : List Text} {i column : Nat}
    {line comment : Text} (hi : lines[i]? = some line) (hcolumn : column < line.length)
    (hcomment : '\n' ∉ comment) {endLine : Int}
    (h : opener.lastLine lines (i, column) = .ok endLine)
    (hbody : endLine = i ∨ endsInCode (line.drop column) = true) :
    opener.lastLine (lines.set i (commented line comment)) (i, column) = .ok endLine := by
  have hlt : i < lines.length := (List.getElem?_eq_some_iff.mp hi).1
  have hdrop : (commented line comment).drop column = commented (line.drop column) comment := by
    rw [commented, List.drop_append_of_le_length (by omega)]
    rfl
  rw [lastLine_natCast opener hlt, linesAhead_of_getElem? hi, Except.ok.injEq] at h
  have hi' : (lines.set i (commented line comment))[i]? = some (commented line comment) := by
    simp [hlt]
  rw [lastLine_natCast opener (by simpa using hlt), linesAhead_of_getElem? hi', hdrop,
    List.length_set, List.drop_set_of_lt (by omega), Except.ok.injEq]
  have hne : line.drop column ≠ [] := by simpa using hcolumn
  rcases hbody with rfl | hcode
  · cases hend : opener.bodyEnd? (line.drop column :: lines.drop (i + 1)) with
    | none =>
      -- the opener stands on the last line, where the body ends in any case
      rw [hend, Option.elim_none] at h
      cases hend' : opener.bodyEnd?
          (commented (line.drop column) comment :: lines.drop (i + 1)) with
      | none => exact h
      | some k =>
        have hk := bodyEnd?_lt (by simp) hend'
        rw [List.length_cons, List.length_drop] at hk
        rw [Option.elim_some]
        omega
    | some k =>
      rw [hend, Option.elim_some] at h
      obtain rfl : k = 0 := by omega
      rw [commented, bodyEnd?_append_of_zero hend]
      exact h
  · rw [bodyEnd?_commented opener hne hcode hcomment]
    exact h

end Opener

/-! ## The scan -/

namespace Document

/-- The document `d'` is `d` with a comment behind line `i` of the declaration at `start`, which is
none of the lines after the opener. The line has no comment yet and ends in code. -/
structure Annotates (d' d : Document) (modifier : Text) (start : Int) (o : Opening) (i : Nat)
    (line comment : Text) : Prop where
  opening : d.opening? modifier start = some o
  start_le : start ≤ i
  le_opener : i ≤ o.position.1
  line_eq : d.toSnapshot.lines[i]? = some line
  not_blank : line.allBlank = false
  no_comment : line.withoutComment = line
  endsInCode : line.endsInCode = true
  unbroken : '\n' ∉ comment
  lines_eq : d'.toSnapshot.lines = d.toSnapshot.lines.set i (commented line comment)

/-- A comment behind a line of a declaration does not change the member that is found there, if it
holds no modifier of a member that is not public, or stands behind the first line, and if the body
ends on the line or the line ends in code when it is read from the opener on. -/
theorem member?_commented {d d' : Document} {modifier : Text} {start : Int} {b : Block}
    {o : Opening} {i : Nat} {line comment : Text}
    (h : d.member? modifier start = .ok (some b))
    (ha : d'.Annotates d modifier start o i line comment)
    (hword : i = start ∨ ∀ word ∈ restrictedAccess, hasWord comment word = false)
    (hbody : i = o.position.1 →
      b.endLine = i ∨ endsInCode (line.drop o.position.2.toNat) = true) :
    d'.member? modifier start = .ok (some b) := by
  obtain ⟨ho, hstart, hopener, hi, -, hline, hcode, hcomment, hd'⟩ := ha
  obtain ⟨o', ho', hblock⟩ := (member?_eq_opening? d modifier start b).mp h
  obtain rfl : o = o' := Option.some.inj (ho.symm.trans ho')
  obtain ⟨s, rfl, hs, hcarries, n, rest, hopens⟩ := (opening?_eq_some_iff d modifier start o).mp ho
  obtain ⟨hlast, hkind, hstartLine, htext⟩ := Opening.toBlock_eq_ok_iff.mp hblock
  obtain ⟨k, column, t, -, ht, hposition, hchar, -⟩ := hopens.exists_place
  rw [List.getElem?_drop] at ht
  generalize d.toSnapshot.lines = lines at *
  have hsi : s ≤ i := by omega
  have hlt : i < lines.length := (List.getElem?_eq_some_iff.mp hi).1
  have hdrop : ∀ x : Text, (lines.set i x).drop s =
      (lines.take i).drop s ++ x :: lines.drop (i + 1) := by
    intro x
    rw [List.set_eq_take_append_cons_drop, if_pos hlt, List.drop_append_of_le_length]
    rw [List.length_take]
    omega
  have hsame : lines.set i line = lines := by
    obtain ⟨hlt, rfl⟩ := List.getElem?_eq_some_iff.mp hi
    exact List.set_getElem_self hlt
  have hlength : ((lines.take i).drop s).length = i - s := by
    rw [List.length_drop, List.length_take]
    omega
  have hopens' : Scan.Opens s (d'.toSnapshot.lines.drop s) o n rest := by
    rw [hd', hdrop]
    rw [← hsame, hdrop] at hopens
    refine hopens.commented hline hcode (hword.imp_left fun heq ↦ ?_) ?_
    · exact List.length_eq_zero_iff.mp (by omega)
    · rw [hlength]
      omega
  have hcarries' : (d'.toSnapshot.lines.getD s []).carries modifier = true := by
    rw [hd', List.getD_eq_getElem?_getD, List.getElem?_set]
    rw [List.getD_eq_getElem?_getD] at hcarries
    split
    · next heq =>
      rw [← heq, hi] at hcarries
      exact carries_commented hcarries comment
    · exact hcarries
  refine (member?_eq_some_iff d' modifier s b).mpr
    ⟨s, o, rfl, ?_, hcarries', ⟨n, rest, hopens'⟩, ?_⟩
  · rw [hd', List.length_set]
    exact hs
  · refine Opening.toBlock_eq_ok_iff.mpr ⟨?_, hkind, hstartLine, htext⟩
    rw [hposition] at hlast hopener hbody
    rw [hd', hposition]
    rw [← Int.natCast_add] at hlast hopener hbody ⊢
    -- in front of the line of the opener the body is not touched at all
    rcases Nat.eq_or_lt_of_le (Int.ofNat_le.mp hopener) with rfl | hbefore
    · obtain rfl : line = t := Option.some.inj (hi.symm.trans ht)
      have hcolumn : column < line.length := by
        obtain ⟨r, hr⟩ : ∃ r, o.opener.symbol.toList.head? = some r := by
          cases o.opener <;> exact ⟨_, rfl⟩
        rw [hr] at hchar
        exact (List.getElem?_eq_some_iff.mp hchar).1
      exact o.opener.lastLine_commented hi hcolumn hcomment hlast (hbody rfl)
    · have hline' : s + k < lines.length := (List.getElem?_eq_some_iff.mp ht).1
      rw [← hlast, Opener.lastLine_natCast _ (by simpa using hline'),
        Opener.lastLine_natCast _ hline', linesAhead, linesAhead, List.drop_set_of_lt hbefore,
        List.length_set]

/-- A method on three lines. -/
def sumMethod : Document := live "public int Sum(int a,\n    int b)\n\x7b return a + b; \x7d".toList

def sumMethodCommented : Document :=
  live "public int Sum(int a,\n    int b) // sum in public\n\x7b return a + b; \x7d".toList

theorem member?_commented_sumMethod :
    sumMethodCommented.Annotates sumMethod "public".toList 0
        ⟨.method, .brace, (2, 0), "public int Sum(int a,int b) ".toList⟩ 1
        "    int b)".toList " sum in public".toList ∧
      sumMethodCommented.member? "public".toList 0 =
        .ok (some ⟨.method, 0, 2, "public int Sum(int a,int b)".toList⟩) := by
  have ha : sumMethodCommented.Annotates sumMethod "public".toList 0
      ⟨.method, .brace, (2, 0), "public int Sum(int a,int b) ".toList⟩ 1
      "    int b)".toList " sum in public".toList := by
    constructor <;> decide +kernel
  exact ⟨ha, member?_commented (by decide +kernel) ha (by decide +kernel) (by decide +kernel)⟩

/-- A method with a verbatim string over two lines in its parameters and another one in its body.
The line between them, read on its own, has its strings the other way round. -/
def literalBody : Document :=
  live "public void Foo(string a = @\"x\nb\") \x7b F(@\"\n\x7d\"); \x7d".toList

/-- The same method with a comment behind its second line, which is inside the second string. -/
def literalBodyCommented : Document :=
  live "public void Foo(string a = @\"x\nb\") \x7b F(@\" //\"); \x7d\n\x7d\"); \x7d".toList

/-- A method with its brace on the second line. -/
def loadMethod : Document := live "public int Load(string path)\n\x7b\n\x7d".toList

def loadMethodCommented : Document :=
  live "public int Load(string path)\n\x7b // private\n\x7d".toList

/-- What looks like a comment may close a string of the body and end it early, and a comment that
mentions a modifier cuts the declaration short. -/
theorem member?_commented_ne :
    (literalBodyCommented.Annotates literalBody "public".toList 0
        ⟨.method, .brace, (1, 4), "public void Foo(string a = @\"x b\") ".toList⟩ 1
        "b\") \x7b F(@\"".toList "\"); \x7d".toList ∧
      literalBody.member? "public".toList 0 =
        .ok (some ⟨.method, 0, 2, "public void Foo(string a = @\"x b\")".toList⟩) ∧
      literalBodyCommented.member? "public".toList 0 =
        .ok (some ⟨.method, 0, 1, "public void Foo(string a = @\"x b\")".toList⟩)) ∧
    (loadMethodCommented.Annotates loadMethod "public".toList 0
        ⟨.method, .brace, (1, 0), "public int Load(string path) ".toList⟩ 1
        "\x7b".toList " private".toList ∧
      loadMethod.member? "public".toList 0 =
        .ok (some ⟨.method, 0, 2, "public int Load(string path)".toList⟩) ∧
      loadMethodCommented.member? "public".toList 0 = .ok none) := by
  refine ⟨⟨?_, ?_, ?_⟩, ?_, ?_, ?_⟩
  · constructor <;> decide +kernel
  · decide +kernel
  · decide +kernel
  · constructor <;> decide +kernel
  · decide +kernel
  · decide +kernel

end Document

end CSharpOutline
